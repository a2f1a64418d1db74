import Rvm.Cap.DeepProof
import Rvm.Cap.Revocation
import Rvm.Cap.Tokens
import Rvm.Foundation.Slots

/-!
Owns the agreement of the capability table with the derivation tree: validity, depth,
parent, both counters and the identifiers.
-/

namespace Rvm.Cap

open Foundation DerivationTree DerivationNode CapabilityTable

/-! ### Counters -/

namespace CapabilityTable

def Counted (N : Nat) (table : CapabilityTable) : Prop :=
  table.count = occupied N fun i => (table.slots i).isValid

variable {N : Nat} {table : CapabilityTable}

theorem counted_new (N : Nat) : Counted N new := by
  show 0 = occupied N fun _ => false
  simp

theorem Counted.forceInvalidate (counted : Counted N table) (index : Nat) :
    Counted N (table.forceInvalidate N index) := by
  unfold CapabilityTable.forceInvalidate
  split
  · rename_i live
    have cleared : occupied N (fun i =>
        (Function.update table.slots index (table.slots index).invalidate i).isValid) + 1 =
        occupied N fun i => (table.slots i).isValid := by
      apply occupied_clear live.1 live.2
      · simp
      · intro j apart
        simp [apart]
    show table.count - 1 = occupied N fun i =>
      (Function.update table.slots index (table.slots index).invalidate i).isValid
    rw [counted, ← cleared, Nat.add_sub_cancel]
  · exact counted

theorem Counted.foldl_forceInvalidate (counted : Counted N table) (indices : List Nat) :
    Counted N (indices.foldl (CapabilityTable.forceInvalidate N) table) := by
  induction indices generalizing table with
  | nil => exact counted
  | cons index rest ih => exact ih (counted.forceInvalidate index)

end CapabilityTable

namespace DerivationTree

def Counted (N : Nat) (tree : DerivationTree) : Prop :=
  tree.count = occupied N fun i => (tree.nodes i).isValid

variable {N : Nat} {tree : DerivationTree}

theorem counted_new (N : Nat) : Counted N new := by
  show 0 = occupied N fun _ => false
  simp

theorem Counted.markInvalid {current : Nat} (counted : Counted N tree) (below : current < N)
    (valid : (tree.nodes current).isValid = true) : Counted N (tree.markInvalid current) := by
  have cleared : occupied N (fun i => ((tree.markInvalid current).nodes i).isValid) + 1 =
      occupied N fun i => (tree.nodes i).isValid := by
    apply occupied_clear below valid
    · simp [DerivationTree.markInvalid]
    · intro j apart
      simp [DerivationTree.markInvalid, apart]
  show tree.count - 1 = occupied N fun i => ((tree.markInvalid current).nodes i).isValid
  rw [counted, ← cleared, Nat.add_sub_cancel]

theorem Counted.revokeLoop {fuel count : Nat} {stack : List Nat} {result : Nat × DerivationTree}
    (counted : Counted N tree)
    (returned : DerivationTree.revokeLoop N fuel tree stack count = some result) :
    Counted N result.2 := by
  induction fuel generalizing tree stack count with
  | zero => cases returned
  | succ fuel ih =>
    cases stack with
    | nil =>
      cases returned
      exact counted
    | cons current stack =>
      rw [DerivationTree.revokeLoop] at returned
      split at returned
      · exact ih counted returned
      · rename_i proceed
        have live : current < N ∧ (tree.nodes current).isValid = true := by simpa using proceed
        dsimp only at returned
        split at returned
        · cases returned
        · exact ih (counted.markInvalid live.1 live.2) returned

theorem Counted.revoke {fuel index : Nat} {result : Nat × DerivationTree}
    (counted : Counted N tree)
    (returned : tree.revoke N fuel index = some (.ok result)) : Counted N result.2 := by
  unfold DerivationTree.revoke revokeSubtree at returned
  split at returned
  · cases returned
  · split at returned
    · cases returned
    · obtain ⟨inner, looped, same⟩ := Option.map_eq_some_iff.mp returned
      cases same
      split at looped
      · cases looped
        exact counted
      · exact counted.revokeLoop looped

theorem addRoot_count {after : DerivationTree} {index epoch : Nat}
    (added : tree.addRoot N index epoch = .ok after) : after.count = tree.count + 1 := by
  unfold addRoot at added
  split at added
  · cases added
  · cases added
    rfl

theorem addChild_count {after : DerivationTree} {parentIndex childIndex depth epoch : Nat}
    (added : tree.addChild N parentIndex childIndex depth epoch = .ok after) :
    after.count = tree.count + 1 := by
  unfold addChild at added
  split at added
  · cases added
  · split at added
    · cases added
    · cases added
      rfl

end DerivationTree

/-! ### Insertions -/

/-- What the agreement reads of a slot. -/
def CapSlot.outline (slot : CapSlot) : Bool × Nat := (slot.isValid, slot.parentIndex)

/-- What the agreement reads of a node. -/
def DerivationNode.outline (node : DerivationNode) : Bool × Nat × Nat :=
  (node.isValid, node.parentIndex, node.depth)

namespace CapabilityManager

variable {N : Nat} {manager before after : CapabilityManager} {forest : Handle → Option Handle}
  {lists : Nat → List Nat}

structure Placed (N : Nat) (before after : CapabilityManager) (slot parent depth : Nat) : Prop where
  below : slot < N
  free : (before.table.slots slot).isValid = false
  rooted : parent = u32Max → depth = 0
  slots : ∀ i, (after.table.slots i).outline =
    if i = slot then (true, parent) else (before.table.slots i).outline
  nodes : ∀ i, (after.derivation.nodes i).outline =
    if i = slot then (true, parent, depth) else (before.derivation.nodes i).outline
  tableCount : after.table.count = before.table.count + 1
  treeCount : after.derivation.count = before.derivation.count + 1

/-- The new capability carries the present epoch in token and node, is one deeper than its
parent and within the depth limit. -/
structure Dated (N : Nat) (before after : CapabilityManager) (slot parent depth : Nat) : Prop
    extends Placed N before after slot parent depth where
  epoch : after.epoch = before.epoch
  grantPolicy : after.grantPolicy = before.grantPolicy
  tokens : ∀ i, (after.table.slots i).token.epoch =
    if i = slot then before.epoch else (before.table.slots i).token.epoch
  dates : ∀ i, (after.derivation.nodes i).epoch =
    if i = slot then before.epoch else (before.derivation.nodes i).epoch
  deeper : parent ≠ u32Max → parent ∈ arena N before.derivation ∧
    depth = (before.derivation.nodes parent).depth + 1
  within : depth ≤ before.grantPolicy.maxDepth

variable {table : CapabilityTable} {slot generation depth parent badge index : Nat}

theorem consumeGrantOnce_outline (index generation i : Nat) :
    ((consumeGrantOnce N table index generation).slots i).outline = (table.slots i).outline := by
  rcases @consumeGrantOnce_slots N table index generation i with same | stripped
  · rw [same]
  · rw [stripped]
    rfl

theorem consumeGrantOnce_epoch (index generation i : Nat) :
    ((consumeGrantOnce N table index generation).slots i).token.epoch =
      (table.slots i).token.epoch := by
  rcases @consumeGrantOnce_slots N table index generation i with same | stripped
  · rw [same]
  · rw [stripped]
    rfl

theorem consumeGrantOnce_count (index generation : Nat) :
    (consumeGrantOnce N table index generation).count = table.count := by
  unfold consumeGrantOnce
  split <;> rfl

theorem insertDerived_outline {after : CapabilityTable} {token : CapToken} {owner : PartitionId}
    (nonzero : generation ≠ 0) (slots : after.slots = Function.update table.slots slot
      ⟨token, generation, owner, depth, parent, badge⟩) (i : Nat) :
    (after.slots i).outline = if i = slot then (true, parent) else (table.slots i).outline := by
  rw [slots]
  by_cases here : i = slot
  · simp [here, CapSlot.outline, CapSlot.isValid, nonzero]
  · simp [here]

theorem insertDerived_epoch {after : CapabilityTable} {entry : CapSlot}
    (slots : after.slots = Function.update table.slots slot entry) (i : Nat) :
    (after.slots i).token.epoch =
      if i = slot then entry.token.epoch else (table.slots i).token.epoch := by
  rw [slots]
  by_cases here : i = slot <;> simp [here]

theorem createRoot_dated {capType : CapType} {rights : CapRights} {owner : PartitionId}
    {result : Except CapError (Nat × Nat)} {outcome : Outcome}
    (tracked : before.config.trackDerivation = true) (inv : before.table.Inv N)
    (takes : TakesUnlisted N before (.createRootCapability capType rights badge owner, outcome))
    (called : before.createRootCapability N capType rights badge owner = (result, after)) :
    Quiet before after ∨ ∃ slot, Dated N before after slot u32Max 0 := by
  rcases createRootCapability_cases inv called with
    ⟨_, _, quiet⟩ | ⟨handle, _, rules, _, idTaken, inserted, registered⟩
  · exact .inl quiet.toQuiet
  · obtain ⟨slot, hinted, found, below, free, index, _, nonzero, slots, count, _⟩ :=
      insertDerived_spec inv inserted
    have taken : before.slotTaken N (.createRootCapability capType rights badge owner) =
        some slot := by
      simp [slotTaken, idTaken, found, Except.isOk, Except.toBool, Except.toOption]
    rw [asU32_of_lt (takes slot taken).1] at index
    rw [if_pos tracked] at registered
    obtain ⟨-, nodes⟩ := addRoot_spec registered
    rw [index] at nodes
    refine .inr ⟨slot,
      { below := below
        free := by simpa using free
        rooted := fun _ => rfl
        slots := insertDerived_outline nonzero slots
        nodes := fun i => ?_
        tableCount := count
        treeCount := addRoot_count registered
        epoch := rules.epoch
        grantPolicy := rules.grantPolicy
        tokens := insertDerived_epoch slots
        dates := fun i => ?_
        deeper := fun notNull => absurd rfl notNull
        within := Nat.zero_le _ }⟩
    · rw [nodes]
      by_cases here : i = slot
      · simp [here, outline, newRoot]
      · simp [here]
    · rw [nodes]
      by_cases here : i = slot
      · simp [here, newRoot]
      · simp [here]

theorem grant_dated {call : Call} {sourceIndex sourceGeneration : Nat} {requestedRights : CapRights}
    {target : PartitionId} {callerId : Option PartitionId} {result : Except CapError (Nat × Nat)}
    {outcome : Outcome} (tracked : before.config.trackDerivation = true)
    (forested : Forested N before forest lists) (takes : TakesUnlisted N before (call, outcome))
    (grants : Grants sourceIndex sourceGeneration requestedRights badge target call callerId)
    (called : before.grantWithCaller N sourceIndex sourceGeneration requestedRights badge target
      callerId = (result, after)) :
    Quiet before after ∨ ∃ slot parent depth, Dated N before after slot parent depth := by
  rcases grantWithCaller_cases called with
    ⟨_, _, quiet⟩ |
      ⟨source, token, depth, consume, handle, table, cleared, inserted, rules, _, linking⟩
  · exact .inl quiet.toQuiet
  · obtain ⟨foundSource, validated⟩ := grantCleared_spec cleared
    obtain ⟨rfl, deeper, within, _⟩ := validateGrant_spec validated
    obtain ⟨sourceBelow, rfl, sourceLive, _⟩ := lookup_eq_ok.mp foundSource
    have sourceMember : sourceIndex ∈ arena N before.derivation :=
      mem_arena.mpr ⟨sourceBelow, (forested.synced sourceIndex sourceBelow).mp sourceLive⟩
    obtain ⟨slot, hinted, found, below, free, index, _, nonzero, slots, count, _⟩ :=
      insertDerived_spec forested.table inserted
    rw [asU32_of_lt (takes slot (grants.taken cleared found)).1] at index
    rcases linking with ⟨e, _, _, failed, _⟩ | ⟨rfl, finished, linked⟩
    · exact absurd failed (forested.addChild_ne_error foundSource inserted)
    · rw [if_pos tracked] at linked
      obtain ⟨-, -, -, nodes⟩ := addChild_spec linked
      rw [index] at nodes
      have apart : sourceIndex ≠ slot := fun same => sourceLive (same ▸ free)
      have notNull : sourceIndex ≠ u32Max := Nat.ne_of_lt (forested.small _ sourceMember)
      have sameOutline : ∀ i, (after.table.slots i).outline = (table.slots i).outline := by
        intro i
        rw [finished]
        split
        · exact consumeGrantOnce_outline ..
        · rfl
      have sameEpoch : ∀ i,
          (after.table.slots i).token.epoch = (table.slots i).token.epoch := by
        intro i
        rw [finished]
        split
        · exact consumeGrantOnce_epoch ..
        · rfl
      have sameCount : after.table.count = table.count := by
        rw [finished]
        split
        · exact consumeGrantOnce_count ..
        · rfl
      refine .inr ⟨slot, sourceIndex, depth,
        { below := below
          free := by simpa using free
          rooted := fun isNull => absurd isNull notNull
          slots := fun i => (sameOutline i).trans (insertDerived_outline nonzero slots i)
          nodes := fun i => ?_
          tableCount := sameCount.trans count
          treeCount := addChild_count linked
          epoch := rules.epoch
          grantPolicy := rules.grantPolicy
          tokens := fun i => (sameEpoch i).trans (insertDerived_epoch slots i)
          dates := fun i => ?_
          deeper := fun _ => ⟨sourceMember, ?_⟩
          within := within }⟩
      · rw [nodes]
        by_cases here : i = slot
        · simp [here, outline]
        · by_cases isSource : i = sourceIndex
          · simp [isSource, apart, outline]
          · simp [here, isSource]
      · rw [nodes]
        by_cases here : i = slot
        · simp [here]
        · by_cases isSource : i = sourceIndex
          · simp [isSource, apart]
          · simp [here, isSource]
      · rw [deeper, forested.depth sourceIndex sourceMember]

/-! ### The invariant -/

/-- The part of the agreement that the forest invariant leaves out. -/
structure Recorded (N : Nat) (manager : CapabilityManager) : Prop where
  tableCount : manager.table.Counted N
  treeCount : manager.derivation.Counted N
  parents : ∀ index ∈ arena N manager.derivation,
    (manager.table.slots index).parentIndex = (manager.derivation.nodes index).parentIndex
  roots : ∀ index ∈ arena N manager.derivation,
    (manager.derivation.nodes index).parentIndex = u32Max →
    (manager.derivation.nodes index).depth = 0

theorem recorded_new (N : Nat) (config : CapManagerConfig) : Recorded N (.new config) where
  tableCount := CapabilityTable.counted_new N
  treeCount := DerivationTree.counted_new N
  parents := fun _ member => nomatch (mem_arena.mp member).2
  roots := fun _ member => nomatch (mem_arena.mp member).2

theorem Recorded.congr (recorded : Recorded N before) (table : after.table = before.table)
    (derivation : after.derivation = before.derivation) : Recorded N after := by
  obtain ⟨_, _, _, _⟩ := recorded
  constructor <;> simpa only [table, derivation]

theorem Placed.not_member (forested : Forested N before forest lists)
    (placed : Placed N before after slot parent depth) : slot ∉ arena N before.derivation := by
  intro member
  have free := placed.free
  rw [CapSlot.isValid_eq_false] at free
  exact (forested.synced slot placed.below).mpr (mem_arena.mp member).2 free

theorem Placed.old (placed : Placed N before after slot parent depth)
    (member : index ∈ arena N after.derivation) (apart : index ≠ slot) :
    index ∈ arena N before.derivation ∧
      (after.derivation.nodes index).parentIndex =
        (before.derivation.nodes index).parentIndex ∧
      (after.derivation.nodes index).depth = (before.derivation.nodes index).depth := by
  have here := placed.nodes index
  rw [if_neg apart, outline, outline, Prod.mk.injEq, Prod.mk.injEq] at here
  rw [mem_arena, here.1, ← mem_arena] at member
  exact ⟨member, here.2⟩

theorem Placed.newNode (placed : Placed N before after slot parent depth) :
    (after.derivation.nodes slot).isValid = true ∧
      (after.derivation.nodes slot).parentIndex = parent ∧
      (after.derivation.nodes slot).depth = depth := by
  have here := placed.nodes slot
  rw [if_pos rfl, outline, Prod.mk.injEq, Prod.mk.injEq] at here
  exact here

theorem Recorded.placed (recorded : Recorded N before) (forested : Forested N before forest lists)
    (placed : Placed N before after slot parent depth) : Recorded N after := by
  have slotAt := placed.slots
  have nodeAt := placed.nodes
  simp only [CapSlot.outline, outline] at slotAt nodeAt
  -- The free slot's node is free as well.
  have nodeFree : (before.derivation.nodes slot).isValid = false := by
    rw [← Bool.not_eq_true]
    exact fun valid => placed.not_member forested (mem_arena.mpr ⟨placed.below, valid⟩)
  have newNode := placed.newNode
  have newSlot := slotAt slot
  rw [if_pos rfl, Prod.mk.injEq] at newSlot
  constructor
  · show after.table.count = _
    rw [placed.tableCount, recorded.tableCount]
    symm
    apply occupied_fill placed.below placed.free newSlot.1
    intro other apart
    have here := slotAt other
    rw [if_neg apart, Prod.mk.injEq] at here
    exact here.1
  · show after.derivation.count = _
    rw [placed.treeCount, recorded.treeCount]
    symm
    apply occupied_fill placed.below nodeFree newNode.1
    intro other apart
    have here := nodeAt other
    rw [if_neg apart, Prod.mk.injEq] at here
    exact here.1
  · intro index member
    by_cases here : index = slot
    · rw [here, newSlot.2, newNode.2.1]
    · obtain ⟨oldMember, sameParent, _⟩ := placed.old member here
      have slotHere := slotAt index
      rw [if_neg here, Prod.mk.injEq] at slotHere
      rw [slotHere.2, sameParent]
      exact recorded.parents index oldMember
  · intro index member noParent
    by_cases here : index = slot
    · rw [here, newNode.2.1] at noParent
      rw [here, newNode.2.2]
      exact placed.rooted noParent
    · obtain ⟨oldMember, sameParent, sameDepth⟩ := placed.old member here
      rw [sameDepth]
      apply recorded.roots index oldMember
      rw [← sameParent, noParent]

theorem Forested.survivor {fuel count i : Nat} (forested : Forested N before forest lists)
    (called : before.revoke N fuel index generation = some (.ok count, after))
    (member : i ∈ arena N after.derivation) :
    i ∈ arena N before.derivation ∧ after.table.slots i = before.table.slots i ∧
      after.derivation.nodes i = before.derivation.nodes i := by
  obtain ⟨_, _, visited, revoked⟩ := forested.revoked called
  obtain ⟨below, valid⟩ := mem_arena.mp member
  rw [revoked.nodes, marked_isValid] at valid
  refine ⟨mem_arena.mpr ⟨below, valid.1⟩, ?_, ?_⟩
  · rw [revoked.slots, if_neg valid.2]
  · rw [revoked.nodes, marked, if_neg valid.2]

theorem Recorded.revoked {fuel count : Nat} (recorded : Recorded N before)
    (forested : Forested N before forest lists)
    (called : before.revoke N fuel index generation = some (.ok count, after)) :
    Recorded N after := by
  rcases revoke_cases called with ⟨_, failed, _⟩ | ⟨_, _, _, _, _, _, _, _, walked, invalidated⟩
  · cases failed
  · constructor
    · rw [invalidated]
      exact recorded.tableCount.foldl_forceInvalidate _
    · exact recorded.treeCount.revoke walked
    · intro i member
      obtain ⟨oldMember, sameSlot, sameNode⟩ := forested.survivor called member
      rw [sameSlot, sameNode]
      exact recorded.parents i oldMember
    · intro i member
      obtain ⟨oldMember, _, sameNode⟩ := forested.survivor called member
      rw [sameNode]
      exact recorded.roots i oldMember

/-- What a call does to a tracking manager whose insertions take unlisted slots. -/
inductive TidyStep (N : Nat) (before after : CapabilityManager) : Call → Prop
  | quiet {call : Call} : Quiet before after → TidyStep N before after call
  | dated {call : Call} {slot parent depth : Nat} :
      Dated N before after slot parent depth → TidyStep N before after call
  | aged : after = before.incrementEpoch → TidyStep N before after .incrementEpoch
  | revoked {call : Call} {fuel index generation count : Nat} :
      before.revoke N fuel index generation = some (.ok count, after) →
      TidyStep N before after call

theorem tidyStep {label : Call × Outcome} (tracked : before.config.trackDerivation = true)
    (forested : Forested N before forest lists) (takes : TakesUnlisted N before label)
    (step : Step N before label after) : TidyStep N before after label.1 := by
  obtain ⟨call, outcome⟩ := label
  cases step.answers with
  | createRoot called =>
    rcases createRoot_dated tracked forested.table takes called with quiet | ⟨slot, dated⟩
    · exact .quiet quiet
    · exact .dated dated
  | grant grants called =>
    rcases grant_dated tracked forested takes grants called with
      quiet | ⟨slot, parent, depth, dated⟩
    · exact .quiet quiet
    · exact .dated dated
  | incrementEpoch => exact .aged rfl
  | @revoke _ _ _ result _ called =>
    cases result with
    | error e =>
      rcases revoke_cases called with ⟨_, _, quiet⟩ | ⟨_, _, _, succeeded, _⟩
      · exact .quiet quiet.toQuiet
      · cases succeeded
    | ok count => exact .revoked called

theorem recorded_step {label : Call × Outcome} (tracked : before.config.trackDerivation = true)
    (forested : Forested N before forest lists) (recorded : Recorded N before)
    (takes : TakesUnlisted N before label) (step : Step N before label after) :
    Recorded N after := by
  have tidy := tidyStep tracked forested takes step
  generalize label.1 = call at tidy
  cases tidy with
  | quiet quiet => exact recorded.congr quiet.table quiet.derivation
  | dated dated => exact recorded.placed forested dated.toPlaced
  | aged aged =>
    subst aged
    exact recorded.congr rfl rfl
  | revoked called => exact recorded.revoked forested called

/-! ### Agreement -/

def CapSlot.recordedParent (slot : CapSlot) : Option Nat :=
  if slot.parentIndex = u32Max then none else some slot.parentIndex

structure Agreement (N : Nat) (manager : CapabilityManager) : Prop where
  valid : ∀ index < N,
    (manager.table.slots index).isValid = (manager.derivation.nodes index).isValid
  depth : ∀ index < N, (manager.table.slots index).isValid = true →
    (manager.table.slots index).depth = (manager.derivation.nodes index).depth
  parent : ∀ index < N, (manager.table.slots index).isValid = true →
    ∃ fuel, manager.derivation.findParent N fuel index =
      some (CapSlot.recordedParent (manager.table.slots index))
  tableCount : manager.table.count = occupied N fun i => (manager.table.slots i).isValid
  treeCount : manager.derivation.count = occupied N fun i => (manager.table.slots i).isValid
  named : ∀ left < N, ∀ right < N, (manager.table.slots left).isValid = true →
    (manager.table.slots right).isValid = true → left ≠ right →
    (manager.table.slots left).token.id ≠ (manager.table.slots right).token.id

theorem Forested.findParent (forested : Forested N manager forest lists)
    (recorded : Recorded N manager) (member : index ∈ arena N manager.derivation) (fuel : Nat) :
    manager.derivation.findParent N fuel index =
      some (CapSlot.recordedParent (manager.table.slots index)) := by
  obtain ⟨below, valid⟩ := mem_arena.mp member
  rw [CapSlot.recordedParent, recorded.parents index member]
  unfold DerivationTree.findParent
  rw [if_neg (by simp [valid, below])]
  by_cases isRoot : (manager.derivation.nodes index).parentIndex = u32Max
  · rw [if_pos (recorded.roots index member isRoot), if_pos isRoot]
  · obtain ⟨parentMember, _, deeper⟩ := forested.listed index member _ rfl isRoot
    obtain ⟨parentBelow, parentValid⟩ := mem_arena.mp parentMember
    rw [if_neg (by omega), if_neg isRoot]
    exact if_pos ⟨isRoot, parentBelow, parentValid⟩

theorem Forested.tree_agrees (forested : Forested N manager forest lists)
    (recorded : Recorded N manager) (named : Named N manager) : Agreement N manager := by
  have valid : ∀ index < N,
      (manager.table.slots index).isValid = (manager.derivation.nodes index).isValid := by
    intro index below
    rw [Bool.eq_iff_iff, CapSlot.isValid_eq_true]
    exact forested.synced index below
  have member : ∀ index < N, (manager.table.slots index).isValid = true →
      index ∈ arena N manager.derivation := fun index below live =>
    mem_arena.mpr ⟨below, valid index below ▸ live⟩
  exact
    { valid := valid
      depth := fun index below live => forested.depth index (member index below live)
      parent := fun index below live =>
        ⟨0, forested.findParent recorded (member index below live) 0⟩
      tableCount := recorded.tableCount
      treeCount := recorded.treeCount.trans
        (occupied_congr fun i below => (valid i below).symm)
      named := fun left _ right _ leftLive rightLive apart sameId =>
        apart (named.single left right ((CapSlot.isValid_eq_true _).mp leftLive)
          ((CapSlot.isValid_eq_true _).mp rightLive) sameId) }

/-- Run lemma: table and tree agree in every state of a run whose insertions
take unlisted slots. -/
theorem agreement (N : Nat) (config : CapManagerConfig) (tracked : config.trackDerivation = true)
    (history : List (Call × Outcome)) (manager : CapabilityManager)
    (run : Run (Guarded (Step N) (TakesUnlisted N)) (.new config) history manager) :
    Agreement N manager := by
  have reached : manager.config = config ∧ Recorded N manager ∧ Named N manager := by
    induction run with
    | nil => exact ⟨rfl, recorded_new N config, named_new N config⟩
    | snoc before step ih =>
      obtain ⟨sameConfig, recorded, named⟩ := ih
      obtain ⟨lists, forested⟩ := forested_run tracked before
      exact ⟨(step_frame named.table step.1).2.2.2.trans sameConfig,
        recorded_step (sameConfig ▸ tracked) forested recorded step.2 step.1,
        named.step step.1⟩
  obtain ⟨lists, forested⟩ := forested_run tracked run
  exact forested.tree_agrees reached.2.1 reached.2.2

/-- After a root and one grant, table and tree agree. -/
theorem agreement_sampleChain :
    ∃ manager, Run (Guarded (Step 2) (TakesUnlisted 2)) (.new .new) sampleChain manager ∧
      Agreement 2 manager := by
  obtain ⟨manager, granted, _⟩ := sampleChain_run
  exact ⟨manager, granted, agreement 2 .new rfl sampleChain manager granted⟩

/-- A root with two children, the younger revoked and its slot reused for a root,
which ends the list of the first root before its older child. -/
def sampleOrphan : List (Call × Outcome) :=
  [(.createRootCapability .region (.union .read .grant) 0 ⟨1⟩, .ok (.handle 0 1)),
    (.grant 0 1 .read 0 ⟨2⟩, .ok (.handle 1 1)),
    (.grant 0 1 .read 0 ⟨2⟩, .ok (.handle 2 1)),
    (.revoke 2 1, .ok (.revoked 1)),
    (.createRootCapability .device .read 0 ⟨3⟩, .ok (.handle 2 2)),
    (.revoke 0 1, .ok (.revoked 2))]

theorem disagrees {index fuel : Nat} (below : index < N)
    (notFound : manager.derivation.findParent N fuel index = some none)
    (recorded : (manager.table.slots index).isValid = true ∧
      (manager.table.slots index).parentIndex ≠ u32Max) : ¬ Agreement N manager := by
  intro agreement
  obtain ⟨more, found⟩ := agreement.parent index below recorded.1
  have here := findParent_mono found (Nat.le_add_left more fuel)
  rw [findParent_mono notFound (Nat.le_add_right fuel more), CapSlot.recordedParent,
    if_neg recorded.2] at here
  cases here

/-- The older child outlives its parent: the slot records a parent that
`find_parent` no longer finds. -/
theorem agreement_fails :
    ∃ manager, Run (Step 3) (.new .new) sampleOrphan manager ∧ ¬ Agreement 3 manager := by
  have orphaned : Run (Step 3) (.new .new) sampleOrphan _ :=
    .cons ⟨0, rfl⟩ <| .cons ⟨0, rfl⟩ <| .cons ⟨0, rfl⟩ <| .cons ⟨9, rfl⟩ <| .cons ⟨0, rfl⟩ <|
      .single ⟨9, rfl⟩
  exact ⟨_, orphaned, @disagrees 3 _ 1 9 (by decide) rfl (by decide)⟩

end CapabilityManager

end Rvm.Cap
