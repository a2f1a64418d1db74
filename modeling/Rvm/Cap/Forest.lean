import Rvm.Cap.Manager

/-!
Owns the delegation forest of a run, read off the results of its calls alone,
and the invariant that ties it to the derivation tree while no insertion takes
a slot that a live node still lists as a child.
-/

namespace Rvm.Cap

open DerivationTree Foundation Foundation.Worklist Function CapabilityTable DerivationNode List

/-! ### The forest of a run -/

/-- A capability handle: slot index and generation. -/
abbrev Handle := Nat × Nat

/-- A successful creation or grant places the handle it returns under the handle
it was granted from, if any. -/
def grow (forest : Handle → Option Handle) (label : Call × Outcome) : Handle → Option Handle :=
  match label.2 with
  | .ok (.handle index generation) =>
    update forest (index, generation) label.1.source
  | _ => forest

def delegationForest (history : List (Call × Outcome)) : Handle → Option Handle :=
  history.foldl grow fun _ => none

theorem delegationForest_snoc (history : List (Call × Outcome)) (label : Call × Outcome) :
    delegationForest (history ++ [label]) = grow (delegationForest history) label := by
  simp [delegationForest]

/-- One or more grants lead from the second handle to the first. -/
def Descends (forest : Handle → Option Handle) : Handle → Handle → Prop :=
  Relation.TransGen fun child parent => forest child = some parent

/-! ### Slots still listed -/

def Listed (N : Nat) (tree : DerivationTree) (parent slot : Nat) : Prop :=
  Relation.ReflTransGen
    (fun here next => here < N ∧ here ≠ u32Max ∧ (tree.nodes here).nextSibling = next)
    (tree.nodes parent).firstChild slot

theorem DerivationTree.Chain.reaches {N : Nat} {tree : DerivationTree} {start slot : Nat}
    {list : List Nat} (chain : Chain N tree start list) (member : slot ∈ list) :
    Relation.ReflTransGen
      (fun here next => here < N ∧ here ≠ u32Max ∧ (tree.nodes here).nextSibling = next)
      start slot := by
  induction chain with
  | nil => cases member
  | @cons index rest below notNull _ ih =>
    rcases mem_cons.mp member with rfl | later
    · exact .refl
    · exact .head ⟨below, notNull, rfl⟩ (ih later)

namespace CapabilityManager

def slotTaken (N : Nat) (manager : CapabilityManager) (call : Call) : Option Nat :=
  let cleared : Bool :=
    match call with
    | .createRootCapability _ _ _ _ => manager.takeId.isOk
    | .grant index generation rights _ _ =>
      (manager.grantCleared N index generation rights none).isOk
    | .grantChecked index generation rights _ _ caller =>
      (manager.grantCleared N index generation rights (some caller)).isOk
    | _ => false
  if cleared then (manager.table.findFreeSlot N).toOption.map Prod.fst else none

theorem Grants.taken {N sourceIndex sourceGeneration badge slot : Nat} {manager : CapabilityManager}
    {requestedRights : CapRights} {target : PartitionId} {call : Call}
    {callerId : Option PartitionId} {passed : CapSlot × CapToken × Nat × Bool} {hinted : CapabilityTable}
    (grants : Grants sourceIndex sourceGeneration requestedRights badge target call callerId)
    (cleared : manager.grantCleared N sourceIndex sourceGeneration requestedRights callerId =
      .ok passed)
    (found : manager.table.findFreeSlot N = .ok (slot, hinted)) :
    manager.slotTaken N call = some slot := by
  cases grants <;>
    simp [slotTaken, cleared, found, Except.isOk, Except.toBool, Except.toOption]

/-- The slot a call takes is no child-list entry of a live node, and its index is
not the `u32` sentinel. -/
def TakesUnlisted (N : Nat) (manager : CapabilityManager) (label : Call × Outcome) : Prop :=
  ∀ slot, manager.slotTaken N label.1 = some slot →
    slot < u32Max ∧ ∀ parent ∈ arena N manager.derivation, ¬ Listed N manager.derivation parent slot

/-! ### The invariant -/

structure Forested (N : Nat) (manager : CapabilityManager) (forest : Handle → Option Handle)
    (lists : Nat → List Nat) : Prop where
  table : manager.table.Inv N
  synced : ∀ index, index < N →
    ((manager.table.slots index).generation ≠ 0 ↔ (manager.derivation.nodes index).isValid = true)
  small : ∀ index ∈ arena N manager.derivation, index < u32Max
  chain : ∀ index ∈ arena N manager.derivation,
    Chain N manager.derivation (manager.derivation.nodes index).firstChild (lists index)
  nodup : ∀ index ∈ arena N manager.derivation, (lists index).Nodup
  parent : ∀ index ∈ arena N manager.derivation, ∀ child ∈ lists index,
    child ∈ arena N manager.derivation → (manager.derivation.nodes child).parentIndex = index
  depth : ∀ index ∈ arena N manager.derivation,
    (manager.table.slots index).depth = (manager.derivation.nodes index).depth
  listed : ∀ child ∈ arena N manager.derivation, ∀ parent,
    (manager.derivation.nodes child).parentIndex = parent → parent ≠ u32Max →
    parent ∈ arena N manager.derivation ∧ child ∈ lists parent ∧
      (manager.derivation.nodes parent).depth < (manager.derivation.nodes child).depth
  agrees : ∀ child ∈ arena N manager.derivation, ∀ parent,
    (manager.derivation.nodes child).parentIndex = parent →
    forest (child, (manager.table.slots child).generation) =
      if parent = u32Max then none else some (parent, (manager.table.slots parent).generation)

variable {N : Nat} {manager before after : CapabilityManager} {forest : Handle → Option Handle}
  {lists : Nat → List Nat}

theorem forested_new (N : Nat) (config : CapManagerConfig) :
    Forested N (.new config) (delegationForest []) fun _ => [] := by
  have noNode : ∀ index, index ∉ arena N (CapabilityManager.new config).derivation := by
    intro index member
    obtain ⟨-, valid⟩ := mem_arena.mp member
    cases valid
  exact
    { table := new_inv N
      synced := fun _ _ => ⟨fun live => absurd rfl live, fun valid => by cases valid⟩
      small := fun index member => absurd member (noNode index)
      chain := fun index member => absurd member (noNode index)
      nodup := fun index member => absurd member (noNode index)
      parent := fun index member => absurd member (noNode index)
      depth := fun index member => absurd member (noNode index)
      listed := fun index member => absurd member (noNode index)
      agrees := fun index member => absurd member (noNode index) }

theorem Forested.live_iff (forested : Forested N manager forest lists) {index generation : Nat} :
    manager.table.Live N index generation ↔
      index ∈ arena N manager.derivation ∧ (manager.table.slots index).generation = generation := by
  rw [mem_arena]
  constructor
  · rintro ⟨below, nonzero, same⟩
    exact ⟨⟨below, (forested.synced index below).mp (same ▸ nonzero)⟩, same⟩
  · rintro ⟨⟨below, valid⟩, same⟩
    exact ⟨below, same ▸ (forested.synced index below).mpr valid, same⟩

/-- The child lists of the tree form a forest, so its walks are exact. -/
theorem Forested.linked (forested : Forested N manager forest lists) :
    Linked N manager.derivation lists where
  chain := forested.chain
  nodup := forested.nodup
  forest :=
    { nodup := fun node member => (forested.nodup node member).filter _
      inside := by
        intro node member child edge
        obtain ⟨childListed, valid⟩ := mem_filter.mp edge
        exact mem_arena.mpr ⟨(forested.chain node member).index_lt child childListed, valid⟩
      unique := by
        intro left leftMember right rightMember child leftEdge rightEdge
        obtain ⟨leftListed, valid⟩ := mem_filter.mp leftEdge
        obtain ⟨rightListed, -⟩ := mem_filter.mp rightEdge
        have member : child ∈ arena N manager.derivation :=
          mem_arena.mpr ⟨(forested.chain left leftMember).index_lt child leftListed, valid⟩
        rw [← forested.parent left leftMember child leftListed member,
          forested.parent right rightMember child rightListed member]
      ranked := by
        refine ⟨fun node => (manager.derivation.nodes node).depth, fun node member child edge => ?_⟩
        obtain ⟨childListed, valid⟩ := mem_filter.mp edge
        have childMember : child ∈ arena N manager.derivation :=
          mem_arena.mpr ⟨(forested.chain node member).index_lt child childListed, valid⟩
        have parent := forested.parent node member child childListed childMember
        have notNull : node ≠ u32Max := Nat.ne_of_lt (forested.small node member)
        exact (forested.listed child childMember node parent notNull).2.2 }

theorem Forested.edge_iff (forested : Forested N manager forest lists) {child : Nat}
    (member : child ∈ arena N manager.derivation) (parent : Handle) :
    forest (child, (manager.table.slots child).generation) = some parent ↔
      parent.1 ∈ arena N manager.derivation ∧
        parent.2 = (manager.table.slots parent.1).generation ∧
        child ∈ validChildren manager.derivation lists parent.1 := by
  have valid := (mem_arena.mp member).2
  rw [forested.agrees child member _ rfl]
  constructor
  · intro same
    split at same
    · cases same
    · next notNull =>
        cases same
        obtain ⟨parentMember, childListed, -⟩ := forested.listed child member _ rfl notNull
        exact ⟨parentMember, rfl, mem_filter.mpr ⟨childListed, valid⟩⟩
  · rintro ⟨parentMember, generation, edge⟩
    have isParent := forested.parent parent.1 parentMember child (mem_filter.mp edge).1 member
    have notNull : parent.1 ≠ u32Max := Nat.ne_of_lt (forested.small _ parentMember)
    rw [isParent, if_neg notNull, ← generation]

theorem Forested.below_iff (forested : Forested N manager forest lists) {root node : Nat}
    (rootMember : root ∈ arena N manager.derivation) (member : node ∈ arena N manager.derivation) :
    Below (validChildren manager.derivation lists) root node ↔
      node = root ∨
        Descends forest (node, (manager.table.slots node).generation)
          (root, (manager.table.slots root).generation) := by
  constructor
  · intro below
    clear member
    induction below with
    | refl => exact Or.inl rfl
    | @tail middle node below edge ih =>
      obtain ⟨rank, ranked⟩ := forested.linked.forest.ranked
      have middleMember : middle ∈ arena N manager.derivation :=
        (forested.linked.forest.rank_le ranked rootMember below).1
      have nodeMember := forested.linked.forest.inside middle middleMember node edge
      have step := (forested.edge_iff nodeMember
        (middle, (manager.table.slots middle).generation)).mpr ⟨middleMember, rfl, edge⟩
      rcases ih with rfl | descends
      · exact Or.inr (.single step)
      · exact Or.inr (.head step descends)
  · rintro (rfl | descends)
    · exact .refl
    · generalize nodeEq : (node, (manager.table.slots node).generation) = handle at descends
      induction descends using Relation.TransGen.head_induction_on generalizing node with
      | single edge =>
        subst nodeEq
        obtain ⟨-, -, edge⟩ := (forested.edge_iff member _).mp edge
        exact .single edge
      | @head handle parent edge _ ih =>
        subst nodeEq
        obtain ⟨parentMember, generation, edge⟩ := (forested.edge_iff member _).mp edge
        have below := ih parentMember
          (show (parent.1, (manager.table.slots parent.1).generation) = parent by
            rw [← generation])
        exact below.tail edge

/-! ### Insertion -/

structure Inserted (before after : CapabilityTable) (slot generation depth : Nat) : Prop where
  generation : (after.slots slot).generation = generation
  depth : (after.slots slot).depth = depth
  others : ∀ other, other ≠ slot →
    (after.slots other).generation = (before.slots other).generation ∧
      (after.slots other).depth = (before.slots other).depth

/-- A tree that gained a valid childless node in `slot`, under a parent or none,
and child lists that follow. -/
structure Grown (N : Nat) (before after : DerivationTree) (lists grown : Nat → List Nat)
    (slot parent depth : Nat) : Prop where
  valid : (after.nodes slot).isValid = true
  childless : (after.nodes slot).firstChild = u32Max
  parentIndex : (after.nodes slot).parentIndex = parent
  depth : (after.nodes slot).depth = depth
  others : ∀ other, other ≠ slot →
    (after.nodes other).isValid = (before.nodes other).isValid ∧
      (after.nodes other).parentIndex = (before.nodes other).parentIndex ∧
      (after.nodes other).depth = (before.nodes other).depth
  empty : grown slot = []
  chain : ∀ index ∈ arena N before, Chain N after (after.nodes index).firstChild (grown index)
  nodup : ∀ index ∈ arena N before, (grown index).Nodup
  member : ∀ index ∈ arena N before, ∀ child,
    child ∈ grown index ↔ child ∈ lists index ∨ child = slot ∧ index = parent

variable {slot depth epoch badge : Nat}

theorem Forested.insert {grown : Nat → List Nat} {generation parent : Nat}
    (forested : Forested N before forest lists) (below : slot < N) (small : slot < u32Max)
    (free : (before.table.slots slot).generation = 0) (nonzero : generation ≠ 0)
    (unlisted : ∀ index ∈ arena N before.derivation, slot ∉ lists index)
    (placed : parent ≠ u32Max → parent ∈ arena N before.derivation ∧
      (before.derivation.nodes parent).depth < depth) (table : after.table.Inv N)
    (inserted : Inserted before.table after.table slot generation depth)
    (growth : Grown N before.derivation after.derivation lists grown slot parent depth) :
    Forested N after
      (update forest (slot, generation)
        (if parent = u32Max then none
          else some (parent, (before.table.slots parent).generation))) grown := by
  have notMember : slot ∉ arena N before.derivation := by
    intro member
    exact (forested.synced slot below).mpr (mem_arena.mp member).2 free
  have oldDifferent : ∀ other ∈ arena N before.derivation, other ≠ slot :=
    fun other old same => notMember (same ▸ old)
  have members : ∀ other, other ∈ arena N after.derivation ↔
      other = slot ∨ other ∈ arena N before.derivation := by
    intro other
    rw [mem_arena, mem_arena]
    by_cases same : other = slot
    · subst same
      simp [growth.valid, below]
    · simp [(growth.others other same).1, same]
  constructor
  · exact table
  · intro index indexBelow
    by_cases same : index = slot
    · subst same
      simp [inserted.generation, growth.valid, nonzero]
    · rw [(inserted.others index same).1, (growth.others index same).1]
      exact forested.synced index indexBelow
  · intro index member
    rcases (members index).mp member with rfl | old
    · exact small
    · exact forested.small index old
  · intro index member
    rcases (members index).mp member with rfl | old
    · rw [growth.childless, growth.empty]
      exact .nil
    · exact growth.chain index old
  · intro index member
    rcases (members index).mp member with rfl | old
    · rw [growth.empty]
      exact nodup_nil
    · exact growth.nodup index old
  · intro index member child childListed childMember
    rcases (members index).mp member with rfl | old
    · rw [growth.empty] at childListed
      cases childListed
    · rcases (growth.member index old child).mp childListed with oldListed | ⟨rfl, rfl⟩
      · rcases (members child).mp childMember with rfl | childOld
        · exact absurd oldListed (unlisted index old)
        · rw [(growth.others child (oldDifferent child childOld)).2.1]
          exact forested.parent index old child oldListed childOld
      · exact growth.parentIndex
  · intro index member
    rcases (members index).mp member with rfl | old
    · rw [inserted.depth, growth.depth]
    · have different := oldDifferent index old
      rw [(inserted.others index different).2, (growth.others index different).2.2]
      exact forested.depth index old
  · intro child member above isAbove notNull
    rcases (members child).mp member with rfl | old
    · rw [growth.parentIndex] at isAbove
      subst isAbove
      obtain ⟨parentOld, deeper⟩ := placed notNull
      refine ⟨(members parent).mpr (Or.inr parentOld),
        (growth.member parent parentOld child).mpr (Or.inr ⟨rfl, rfl⟩), ?_⟩
      rwa [growth.depth, (growth.others parent (oldDifferent parent parentOld)).2.2]
    · have different := growth.others child (oldDifferent child old)
      rw [different.2.1] at isAbove
      obtain ⟨aboveOld, childListed, deeper⟩ := forested.listed child old above isAbove notNull
      refine ⟨(members above).mpr (Or.inr aboveOld),
        (growth.member above aboveOld child).mpr (Or.inl childListed), ?_⟩
      rwa [different.2.2, (growth.others above (oldDifferent above aboveOld)).2.2]
  · intro child member above isAbove
    rcases (members child).mp member with rfl | old
    · rw [growth.parentIndex] at isAbove
      subst isAbove
      rw [inserted.generation, update_self]
      split
      · rfl
      · next notNull =>
          have different := oldDifferent parent (placed notNull).1
          rw [(inserted.others parent different).1]
    · have different := oldDifferent child old
      rw [(growth.others child different).2.1] at isAbove
      rw [(inserted.others child different).1,
        update_of_ne fun same => different (congrArg Prod.fst same),
        forested.agrees child old above isAbove]
      split
      · rfl
      · next notNull =>
          obtain ⟨aboveOld, -⟩ := forested.listed child old above isAbove notNull
          rw [(inserted.others above (oldDifferent above aboveOld)).1]

theorem Forested.grown_addRoot {tree : DerivationTree} (forested : Forested N before forest lists)
    (notMember : slot ∉ arena N before.derivation)
    (unlisted : ∀ index ∈ arena N before.derivation, slot ∉ lists index) (nodes : tree.nodes =
      update before.derivation.nodes slot (newRoot epoch)) :
    Grown N before.derivation tree lists (update lists slot []) slot u32Max 0 := by
  have atSlot : tree.nodes slot = newRoot epoch := by
    rw [nodes, update_self]
  have elsewhere : ∀ other, other ≠ slot → tree.nodes other = before.derivation.nodes other := by
    intro other different
    rw [nodes, update_of_ne different]
  have oldDifferent : ∀ other ∈ arena N before.derivation, other ≠ slot :=
    fun other old same => notMember (same ▸ old)
  exact
    { valid := by rw [atSlot, newRoot]
      childless := by rw [atSlot, newRoot]
      parentIndex := by rw [atSlot, newRoot]
      depth := by rw [atSlot, newRoot]
      others := by
        intro other different
        rw [elsewhere other different]
        exact ⟨rfl, rfl, rfl⟩
      empty := update_self ..
      chain := by
        intro index old
        rw [elsewhere index (oldDifferent index old), update_of_ne (oldDifferent index old)]
        refine (forested.chain index old).congr fun child childListed => ?_
        rw [elsewhere child fun same => unlisted index old (same ▸ childListed)]
      nodup := by
        intro index old
        rw [update_of_ne (oldDifferent index old)]
        exact forested.nodup index old
      member := by
        intro index old child
        have notNull : index ≠ u32Max := Nat.ne_of_lt (forested.small index old)
        rw [update_of_ne (oldDifferent index old)]
        simp [notNull] }

theorem Forested.grown_addChild {parent : Nat} {tree : DerivationTree}
    (forested : Forested N before forest lists) (below : slot < N) (small : slot < u32Max)
    (notMember : slot ∉ arena N before.derivation)
    (parentMember : parent ∈ arena N before.derivation)
    (unlisted : ∀ index ∈ arena N before.derivation, slot ∉ lists index)
    (nodes : tree.nodes = update
      (update before.derivation.nodes parent
        { before.derivation.nodes parent with firstChild := slot }) slot
      ⟨true, depth, epoch, u32Max, (before.derivation.nodes parent).firstChild, parent⟩) :
    Grown N before.derivation tree lists
      (update (update lists parent (slot :: lists parent)) slot [])
      slot parent depth := by
  have atSlot : tree.nodes slot =
      ⟨true, depth, epoch, u32Max, (before.derivation.nodes parent).firstChild, parent⟩ := by
    rw [nodes, update_self]
  have oldDifferent : ∀ other ∈ arena N before.derivation, other ≠ slot :=
    fun other old same => notMember (same ▸ old)
  have atParent : tree.nodes parent =
      { before.derivation.nodes parent with firstChild := slot } := by
    rw [nodes, update_of_ne (oldDifferent parent parentMember), update_self]
  have elsewhere : ∀ other, other ≠ slot → other ≠ parent →
      tree.nodes other = before.derivation.nodes other := by
    intro other notSlot notParent
    rw [nodes, update_of_ne notSlot, update_of_ne notParent]
  have siblings : ∀ other, other ≠ slot →
      (tree.nodes other).nextSibling = (before.derivation.nodes other).nextSibling := by
    intro other notSlot
    by_cases isParent : other = parent
    · rw [isParent, atParent]
    · rw [elsewhere other notSlot isParent]
  have oldChain : ∀ index ∈ arena N before.derivation,
      Chain N tree (before.derivation.nodes index).firstChild (lists index) := by
    intro index old
    refine (forested.chain index old).congr fun child childListed => ?_
    exact siblings child fun same => unlisted index old (same ▸ childListed)
  exact
    { valid := by rw [atSlot]
      childless := by rw [atSlot]
      parentIndex := by rw [atSlot]
      depth := by rw [atSlot]
      others := by
        intro other notSlot
        by_cases isParent : other = parent
        · rw [isParent, atParent]
          exact ⟨rfl, rfl, rfl⟩
        · rw [elsewhere other notSlot isParent]
          exact ⟨rfl, rfl, rfl⟩
      empty := update_self ..
      chain := by
        intro index old
        rw [update_of_ne (oldDifferent index old)]
        by_cases isParent : index = parent
        · subst isParent
          rw [atParent, update_self]
          refine .cons below (Nat.ne_of_lt small) ?_
          rw [atSlot]
          exact oldChain index old
        · rw [elsewhere index (oldDifferent index old) isParent, update_of_ne isParent]
          exact oldChain index old
      nodup := by
        intro index old
        rw [update_of_ne (oldDifferent index old)]
        by_cases isParent : index = parent
        · subst isParent
          rw [update_self]
          exact nodup_cons.mpr ⟨unlisted index old, forested.nodup index old⟩
        · rw [update_of_ne isParent]
          exact forested.nodup index old
      member := by
        intro index old child
        rw [update_of_ne (oldDifferent index old)]
        by_cases isParent : index = parent
        · subst isParent
          rw [update_self, mem_cons]
          tauto
        · rw [update_of_ne isParent]
          simp [isParent] }

/-! ### Creating calls -/

theorem Forested.congr (forested : Forested N before forest lists)
    (table : after.table = before.table) (derivation : after.derivation = before.derivation) :
    Forested N after forest lists := by
  obtain ⟨_, _, _, _, _, _, _, _, _⟩ := forested
  constructor <;> simpa only [table, derivation]

/-- The slot a creating call takes is not listed, so the insertion it makes can
use the invariant. -/
private theorem unlisted_of_taken {call : Call} {outcome : Outcome}
    (forested : Forested N before forest lists) (takes : TakesUnlisted N before (call, outcome))
    (taken : before.slotTaken N call = some slot) :
    slot < u32Max ∧ ∀ index ∈ arena N before.derivation, slot ∉ lists index := by
  obtain ⟨small, unlisted⟩ := takes slot taken
  exact ⟨small, fun index member childListed =>
    unlisted index member ((forested.chain index member).reaches childListed)⟩

/-- A live source and the slot found for the child are in range, and the source's node is
valid, so linking them cannot fail. -/
theorem Forested.addChild_ne_error {sourceIndex sourceGeneration : Nat} {source : CapSlot}
    {token : CapToken} {target : PartitionId} {handle : Nat × Nat} {table : CapabilityTable}
    {e : CapError} (forested : Forested N before forest lists)
    (found : before.table.lookup N sourceIndex sourceGeneration = .ok source)
    (inserted : before.table.insertDerived N token target depth sourceIndex badge =
      .ok (handle, table)) :
    before.derivation.addChild N sourceIndex handle.1 depth epoch ≠ .error e := by
  obtain ⟨sourceBelow, rfl, sourceLive, _⟩ := lookup_eq_ok.mp found
  obtain ⟨slot, _, _, below, _, index, _⟩ :=
    insertDerived_spec forested.table inserted
  have small : handle.1 < N := index ▸ Nat.lt_of_le_of_lt (Nat.mod_le _ _) below
  have inRange : ¬ (sourceIndex ≥ N ∨ handle.1 ≥ N) := by omega
  rw [addChild, if_neg inRange, (forested.synced sourceIndex sourceBelow).mp sourceLive]
  exact nofun

theorem Forested.createRoot {capType : CapType} {rights : CapRights} {owner : PartitionId}
    {result : Except CapError (Nat × Nat)} (tracked : before.config.trackDerivation = true)
    (forested : Forested N before forest lists) (takes : TakesUnlisted N before
      (.createRootCapability capType rights badge owner, (withHandle (result, after)).1))
    (called : before.createRootCapability N capType rights badge owner = (result, after)) :
    ∃ grown, Forested N after
      (grow forest (.createRootCapability capType rights badge owner, (withHandle (result, after)).1))
      grown := by
  rcases createRootCapability_cases forested.table called with
    ⟨_, rfl, quiet⟩ | ⟨handle, rfl, _, _, idTaken, inserted, registered⟩
  · exact ⟨lists, forested.congr quiet.table quiet.derivation⟩
  · have grownTable := insertDerived_inv forested.table inserted
    obtain ⟨slot, hinted, found, below, free, index, _, nonzero, slots, _⟩ :=
      insertDerived_spec forested.table inserted
    have taken : before.slotTaken N (.createRootCapability capType rights badge owner) =
        some slot := by
      simp [slotTaken, idTaken, found, Except.isOk, Except.toBool, Except.toOption]
    obtain ⟨small, unlisted⟩ := unlisted_of_taken forested takes taken
    rw [asU32_of_lt small] at index
    rw [if_pos tracked] at registered
    obtain ⟨-, nodes⟩ := addRoot_spec registered
    rw [index] at nodes
    have notMember : slot ∉ arena N before.derivation := fun member =>
      (forested.synced slot below).mpr (mem_arena.mp member).2 free
    have insertion : Inserted before.table after.table slot handle.2 0 :=
      { generation := by rw [slots, update_self]
        depth := by rw [slots, update_self]
        others := by
          intro other different
          rw [slots, update_of_ne different]
          exact ⟨rfl, rfl⟩ }
    have grown := forested.insert below small free nonzero unlisted
      (fun notNull => absurd rfl notNull) grownTable insertion
      (forested.grown_addRoot notMember unlisted nodes)
    rw [if_pos rfl, ← index] at grown
    exact ⟨_, grown⟩

theorem Forested.grant {call : Call} {sourceIndex sourceGeneration : Nat}
    {requestedRights : CapRights} {target : PartitionId} {callerId : Option PartitionId}
    {result : Except CapError (Nat × Nat)} (tracked : before.config.trackDerivation = true)
    (forested : Forested N before forest lists)
    (grants : Grants sourceIndex sourceGeneration requestedRights badge target call callerId)
    (takes : TakesUnlisted N before (call, (withHandle (result, after)).1))
    (called : before.grantWithCaller N sourceIndex sourceGeneration requestedRights badge target
      callerId = (result, after)) :
    ∃ grown, Forested N after (grow forest (call, (withHandle (result, after)).1)) grown := by
  rcases grantWithCaller_cases called with
    ⟨_, rfl, quiet⟩ | ⟨source, token, depth, consume, handle, table, cleared, inserted, _, _, linking⟩
  · exact ⟨lists, forested.congr quiet.table quiet.derivation⟩
  · obtain ⟨foundSource, validated⟩ := grantCleared_spec cleared
    obtain ⟨-, depthEq, -⟩ := validateGrant_spec validated
    obtain ⟨sourceBelow, sourceEq, sourceLive, generationEq⟩ :=
      lookup_eq_ok.mp foundSource
    subst sourceEq
    obtain ⟨sourceMember, -⟩ := forested.live_iff.mp
      (show before.table.Live N sourceIndex sourceGeneration from
        ⟨sourceBelow, generationEq ▸ sourceLive, generationEq⟩)
    have grownTable := insertDerived_inv forested.table inserted
    obtain ⟨slot, hinted, found, below, free, index, _, nonzero, slots, _⟩ :=
      insertDerived_spec forested.table inserted
    obtain ⟨small, unlisted⟩ := unlisted_of_taken forested takes (grants.taken cleared found)
    rw [asU32_of_lt small] at index
    rcases linking with ⟨e, _, _, failed, _⟩ | ⟨rfl, finished, linked⟩
    · exact absurd failed (forested.addChild_ne_error foundSource inserted)
    · rw [if_pos tracked] at linked
      obtain ⟨-, -, -, nodes⟩ := addChild_spec linked
      rw [index] at nodes
      have notMember : slot ∉ arena N before.derivation := fun member =>
        (forested.synced slot below).mpr (mem_arena.mp member).2 free
      have sameShape : ∀ other,
          (after.table.slots other).generation = (table.slots other).generation ∧
            (after.table.slots other).depth = (table.slots other).depth := by
        intro other
        rw [finished]
        split
        · rcases @consumeGrantOnce_slots N table sourceIndex sourceGeneration other with
            same | stripped
          · rw [same]
            exact ⟨rfl, rfl⟩
          · rw [stripped]
            exact ⟨rfl, rfl⟩
        · exact ⟨rfl, rfl⟩
      have insertion : Inserted before.table after.table slot handle.2 depth :=
        { generation := by rw [(sameShape slot).1, slots, update_self]
          depth := by rw [(sameShape slot).2, slots, update_self]
          others := by
            intro other different
            rw [(sameShape other).1, (sameShape other).2, slots, update_of_ne different]
            exact ⟨rfl, rfl⟩ }
      have afterTable : after.table.Inv N := by
        rw [finished]
        split
        · exact consumeGrantOnce_inv grownTable
        · exact grownTable
      have deeper : (before.derivation.nodes sourceIndex).depth < depth := by
        rw [← forested.depth sourceIndex sourceMember]
        omega
      have grown := forested.insert below small free nonzero unlisted
        (fun _ => ⟨sourceMember, deeper⟩) afterTable insertion
        (forested.grown_addChild below small notMember sourceMember unlisted nodes)
      have notNull : sourceIndex ≠ u32Max := Nat.ne_of_lt (forested.small _ sourceMember)
      rw [if_neg notNull, generationEq, ← index, ← grants.source] at grown
      exact ⟨_, grown⟩

end CapabilityManager

end Rvm.Cap
