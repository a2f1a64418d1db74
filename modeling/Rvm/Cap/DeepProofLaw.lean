import Rvm.Cap.Agreement

/-!
Owns the law of deep proofs over runs: `verify_p3` accepts a handle exactly where its chain
of grants up to a root is live, one deeper at each step and of no older epoch than its
source.
-/

namespace Rvm.Cap

open Foundation DerivationTree

/-! ### The law -/

/-- The chain of grants behind a handle, with this many ancestors: all live, each one deeper
and of no older epoch than its source, up to a root. -/
inductive LawfulChain (N : Nat) (table : CapabilityTable) (forest : Handle → Option Handle) :
    Handle → Nat → Prop
  | root {handle : Handle} {slot : CapSlot} :
      table.lookup N handle.1 handle.2 = .ok slot → forest handle = none → slot.depth = 0 →
      LawfulChain N table forest handle 0
  | derived {handle parent : Handle} {slot source : CapSlot} {length : Nat} :
      table.lookup N handle.1 handle.2 = .ok slot → forest handle = some parent →
      table.lookup N parent.1 parent.2 = .ok source → slot.depth = source.depth + 1 →
      source.token.epoch ≤ slot.token.epoch → LawfulChain N table forest parent length →
      LawfulChain N table forest handle (length + 1)

namespace CapabilityManager

variable {N : Nat} {manager before after : CapabilityManager} {forest : Handle → Option Handle}
  {lists : Nat → List Nat}

/-! ### What nodes record -/

/-- What the law reads of a capability, in table and tree. -/
structure Dating where
  depth : Nat
  tokenEpoch : Nat
  nodeEpoch : Nat

def dating (manager : CapabilityManager) (index : Nat) : Dating :=
  ⟨(manager.derivation.nodes index).depth, (manager.table.slots index).token.epoch,
    (manager.derivation.nodes index).epoch⟩

def Members (N : Nat) (manager : CapabilityManager) (Holds : Dating → Prop) : Prop :=
  ∀ index ∈ arena N manager.derivation, Holds (manager.dating index)

def Edges (N : Nat) (manager : CapabilityManager) (Relates : Dating → Dating → Prop) : Prop :=
  ∀ child ∈ arena N manager.derivation, ∀ parent,
    (manager.derivation.nodes child).parentIndex = parent → parent ≠ u32Max →
    Relates (manager.dating child) (manager.dating parent)

variable {Holds : Dating → Prop} {Relates : Dating → Dating → Prop} {slot parent depth : Nat}

theorem Dated.fresh (dated : Dated N before after slot parent depth) :
    after.dating slot = ⟨depth, before.epoch, before.epoch⟩ := by
  rw [dating, dated.newNode.2.2, dated.tokens, dated.dates, if_pos rfl, if_pos rfl]

variable {index : Nat} {grown : Handle → Option Handle} {grownLists : Nat → List Nat}

theorem Dated.kept (dated : Dated N before after slot parent depth)
    (member : index ∈ arena N after.derivation) (apart : index ≠ slot) :
    after.dating index = before.dating index := by
  rw [dating, (dated.old member apart).2.2, dated.tokens, dated.dates, if_neg apart, if_neg apart,
    dating]

theorem Members.dated (members : Members N before Holds)
    (dated : Dated N before after slot parent depth)
    (fresh : Holds ⟨depth, before.epoch, before.epoch⟩) : Members N after Holds := by
  intro index member
  by_cases here : index = slot
  · subst here
    rw [dated.fresh]
    exact fresh
  · rw [dated.kept member here]
    exact members index (dated.old member here).1

theorem Edges.dated (edges : Edges N before Relates) (forested : Forested N before forest lists)
    (later : Forested N after grown grownLists) (dated : Dated N before after slot parent depth)
    (fresh : parent ≠ u32Max → Relates ⟨depth, before.epoch, before.epoch⟩ (before.dating parent)) :
    Edges N after Relates := by
  intro child member above isAbove notNull
  have aboveMember := (later.listed child member above isAbove notNull).1
  by_cases here : child = slot
  · subst here
    rw [dated.newNode.2.1] at isAbove
    subst isAbove
    have apart : parent ≠ child := fun same =>
      dated.not_member forested (same ▸ (dated.deeper notNull).1)
    rw [dated.fresh, dated.kept aboveMember apart]
    exact fresh notNull
  · obtain ⟨oldMember, sameParent, _⟩ := dated.old member here
    rw [sameParent] at isAbove
    have apart : above ≠ slot := fun same =>
      dated.not_member forested (same ▸ (forested.listed child oldMember above isAbove notNull).1)
    rw [dated.kept member here, dated.kept aboveMember apart]
    exact edges child oldMember above isAbove notNull

variable {fuel index generation count : Nat}

theorem survivor_dating {i : Nat} (forested : Forested N before forest lists)
    (called : before.revoke N fuel index generation = some (.ok count, after))
    (member : i ∈ arena N after.derivation) : after.dating i = before.dating i := by
  obtain ⟨_, sameSlot, sameNode⟩ := forested.survivor called member
  rw [dating, sameSlot, sameNode, dating]

theorem Members.revoked (members : Members N before Holds)
    (forested : Forested N before forest lists)
    (called : before.revoke N fuel index generation = some (.ok count, after)) :
    Members N after Holds := by
  intro i member
  rw [survivor_dating forested called member]
  exact members i (forested.survivor called member).1

theorem Edges.revoked (edges : Edges N before Relates) (forested : Forested N before forest lists)
    (later : Forested N after grown grownLists)
    (called : before.revoke N fuel index generation = some (.ok count, after)) :
    Edges N after Relates := by
  intro child member above isAbove notNull
  have aboveMember := (later.listed child member above isAbove notNull).1
  rw [survivor_dating forested called member, survivor_dating forested called aboveMember]
  obtain ⟨oldMember, _, sameNode⟩ := forested.survivor called member
  rw [sameNode] at isAbove
  exact edges child oldMember above isAbove notNull

theorem Members.congr (members : Members N before Holds) (table : after.table = before.table)
    (derivation : after.derivation = before.derivation) : Members N after Holds := by
  unfold Members dating
  rw [table, derivation]
  exact members

theorem Edges.congr (edges : Edges N before Relates) (table : after.table = before.table)
    (derivation : after.derivation = before.derivation) : Edges N after Relates := by
  unfold Edges dating
  rw [table, derivation]
  exact edges

/-! ### Invariants -/

/-- What the law rests on besides the forest: node and token agree on the epoch, depths count
the steps to a root and stay within the limit. -/
structure Stepped (N : Nat) (manager : CapabilityManager) : Prop where
  recorded : Recorded N manager
  epochs : Members N manager fun entry => entry.nodeEpoch = entry.tokenEpoch
  within : Members N manager fun entry => entry.depth ≤ manager.grantPolicy.maxDepth
  steps : Edges N manager fun child parent => child.depth = parent.depth + 1

/-- Epochs do not decrease from root to leaf, and none is ahead of the manager's. -/
structure Ascending (N : Nat) (manager : CapabilityManager) : Prop where
  past : Members N manager fun entry => entry.tokenEpoch ≤ manager.epoch
  rising : Edges N manager fun child parent => parent.tokenEpoch ≤ child.tokenEpoch

theorem not_member_new (config : CapManagerConfig) (index : Nat) :
    index ∉ arena N (CapabilityManager.new config).derivation := by
  intro member
  cases (mem_arena.mp member).2

theorem stepped_new (N : Nat) (config : CapManagerConfig) : Stepped N (.new config) where
  recorded := recorded_new N config
  epochs := fun index member => absurd member (not_member_new config index)
  within := fun index member => absurd member (not_member_new config index)
  steps := fun index member => absurd member (not_member_new config index)

theorem ascending_new (N : Nat) (config : CapManagerConfig) : Ascending N (.new config) where
  past := fun index member => absurd member (not_member_new config index)
  rising := fun index member => absurd member (not_member_new config index)

theorem stepped_step {label : Call × Outcome} (tracked : before.config.trackDerivation = true)
    (forested : Forested N before forest lists) (later : Forested N after grown grownLists)
    (stepped : Stepped N before) (takes : TakesUnlisted N before label)
    (step : Step N before label after) : Stepped N after := by
  have recorded := recorded_step tracked forested stepped.recorded takes step
  have policy := (step_frame forested.table step).2.2.1
  have within := stepped.within
  rw [← policy] at within
  have tidy := tidyStep tracked forested takes step
  generalize label.1 = call at tidy
  cases tidy with
  | quiet quiet =>
    exact ⟨recorded, stepped.epochs.congr quiet.table quiet.derivation,
      within.congr quiet.table quiet.derivation,
      stepped.steps.congr quiet.table quiet.derivation⟩
  | dated dated =>
    refine ⟨recorded, stepped.epochs.dated dated rfl, within.dated dated ?_,
      stepped.steps.dated forested later dated fun notNull => (dated.deeper notNull).2⟩
    rw [policy]
    exact dated.within
  | aged aged =>
    subst aged
    exact ⟨recorded, stepped.epochs.congr rfl rfl, within.congr rfl rfl,
      stepped.steps.congr rfl rfl⟩
  | revoked called =>
    exact ⟨recorded, stepped.epochs.revoked forested called, within.revoked forested called,
      stepped.steps.revoked forested later called⟩

/-- The epoch counter does not wrap. -/
def Unwrapped (manager : CapabilityManager) (label : Call × Outcome) : Prop :=
  label.1 = .incrementEpoch → manager.epoch < u32Max

theorem ascending_step {label : Call × Outcome} (tracked : before.config.trackDerivation = true)
    (forested : Forested N before forest lists) (later : Forested N after grown grownLists)
    (ascending : Ascending N before) (takes : TakesUnlisted N before label)
    (unwrapped : Unwrapped before label) (step : Step N before label after) :
    Ascending N after := by
  have tidy := tidyStep tracked forested takes step
  unfold Unwrapped at unwrapped
  generalize label.1 = call at tidy unwrapped
  cases tidy with
  | quiet quiet =>
    refine ⟨?_, ascending.rising.congr quiet.table quiet.derivation⟩
    rw [quiet.epoch]
    exact ascending.past.congr quiet.table quiet.derivation
  | dated dated =>
    refine ⟨?_, ascending.rising.dated forested later dated fun notNull => ?_⟩
    · rw [dated.epoch]
      exact ascending.past.dated dated (Nat.le_refl _)
    · exact ascending.past _ (dated.deeper notNull).1
  | aged aged =>
    subst aged
    have below := unwrapped rfl
    have advanced : before.incrementEpoch.epoch = before.epoch + 1 := by
      apply Nat.mod_eq_of_lt
      unfold u32Max at below
      omega
    refine ⟨fun index member => ?_, ascending.rising.congr rfl rfl⟩
    rw [advanced]
    exact Nat.le_succ_of_le (ascending.past index member)
  | revoked called =>
    refine ⟨?_, ascending.rising.revoked forested later called⟩
    rw [(ruled_revoke called).epoch]
    exact ascending.past.revoked forested called

/-! ### Chains -/

theorem get_eq_some {tree : DerivationTree} {node : DerivationNode} :
    tree.get N index = some node ↔ index ∈ arena N tree ∧ node = tree.nodes index := by
  unfold DerivationTree.get
  rw [mem_arena]
  split
  · rename_i held
    rw [Option.some.injEq, eq_comm]
    exact ⟨fun same => ⟨held, same⟩, fun both => both.2⟩
  · rename_i absent
    exact ⟨nofun, fun both => absurd both.1 absent⟩

theorem get_member {tree : DerivationTree} (member : index ∈ arena N tree) :
    tree.get N index = some (tree.nodes index) := get_eq_some.mpr ⟨member, rfl⟩

def handleAt (manager : CapabilityManager) (index : Nat) : Handle :=
  (index, (manager.table.slots index).generation)

theorem lookup_handleAt (forested : Forested N manager forest lists)
    (member : index ∈ arena N manager.derivation) :
    manager.table.lookup N (manager.handleAt index).1 (manager.handleAt index).2 =
      .ok (manager.table.slots index) :=
  CapabilityTable.live_iff_lookup.mp (forested.live_iff.mpr ⟨member, rfl⟩)

theorem of_lookup (forested : Forested N manager forest lists) {handle : Handle} {slot : CapSlot}
    (found : manager.table.lookup N handle.1 handle.2 = .ok slot) :
    handle.1 ∈ arena N manager.derivation ∧ handle = manager.handleAt handle.1 ∧
      slot = manager.table.slots handle.1 := by
  obtain ⟨below, rfl, used, generation⟩ := CapabilityTable.lookup_eq_ok.mp found
  exact ⟨mem_arena.mpr ⟨below, (forested.synced _ below).mp used⟩, Prod.ext rfl generation.symm,
    rfl⟩

/-- A node without recorded parent is a root; else its parent is live, is found by the search
and is the source in the forest. -/
theorem Forested.source (forested : Forested N manager forest lists) (stepped : Stepped N manager)
    (member : index ∈ arena N manager.derivation) :
    ((manager.derivation.nodes index).depth = 0 ∧ forest (manager.handleAt index) = none) ∨
      ∃ parent ∈ arena N manager.derivation,
        (∀ fuel, manager.derivation.findParent N fuel index = some (some parent)) ∧
        forest (manager.handleAt index) = some (manager.handleAt parent) ∧
        (manager.derivation.nodes index).depth = (manager.derivation.nodes parent).depth + 1 ∧
        (manager.derivation.nodes index).parentIndex = parent ∧ parent ≠ u32Max := by
  have agrees := forested.agrees index member _ rfl
  by_cases isRoot : (manager.derivation.nodes index).parentIndex = u32Max
  · rw [if_pos isRoot] at agrees
    exact .inl ⟨stepped.recorded.roots index member isRoot, agrees⟩
  · rw [if_neg isRoot] at agrees
    obtain ⟨parentMember, _⟩ := forested.listed index member _ rfl isRoot
    refine .inr ⟨_, parentMember, fun fuel => ?_, agrees, stepped.steps index member _ rfl isRoot,
      rfl, isRoot⟩
    rw [forested.findParent stepped.recorded member, CapSlot.recordedParent,
      stepped.recorded.parents index member, if_neg isRoot]

theorem Chained.lawful (forested : Forested N manager forest lists) (stepped : Stepped N manager)
    {length : Nat} (chained : manager.derivation.Chained N index length) :
    LawfulChain N manager.table forest (manager.handleAt index) length := by
  induction chained with
  | root held isRoot =>
    obtain ⟨member, rfl⟩ := get_eq_some.mp held
    rcases forested.source stepped member with ⟨_, noSource⟩ | ⟨_, _, _, _, deeper, _⟩
    · exact .root (lookup_handleAt forested member) noSource
        ((forested.depth _ member).trans isRoot)
    · omega
  | derived held notRoot parentOf parentHeld _ older _ ih =>
    obtain ⟨member, rfl⟩ := get_eq_some.mp held
    obtain ⟨_, rfl⟩ := get_eq_some.mp parentHeld
    rcases forested.source stepped member with
      ⟨isRoot, _⟩ | ⟨parent, parentMember, found, source, deeper, _⟩
    · exact absurd isRoot notRoot
    · obtain ⟨fuel, foundHere⟩ := parentOf
      obtain rfl := Option.some.inj (Option.some.inj ((found fuel).symm.trans foundHere))
      have childEpoch := stepped.epochs _ member
      have parentEpoch := stepped.epochs _ parentMember
      simp only [dating] at childEpoch parentEpoch
      apply LawfulChain.derived (lookup_handleAt forested member) source
        (lookup_handleAt forested parentMember) _ _ ih
      · rw [forested.depth _ member, forested.depth _ parentMember, deeper]
      · rwa [← childEpoch, ← parentEpoch]

theorem LawfulChain.chained (forested : Forested N manager forest lists)
    (stepped : Stepped N manager) {handle : Handle} {length : Nat}
    (lawful : LawfulChain N manager.table forest handle length) :
    manager.derivation.Chained N handle.1 length := by
  induction lawful with
  | root found _ isRoot =>
    obtain ⟨member, _, rfl⟩ := of_lookup forested found
    rw [forested.depth _ member] at isRoot
    exact .root (get_member member) isRoot
  | derived found source parentFound deeper older _ ih =>
    obtain ⟨member, isHandle, rfl⟩ := of_lookup forested found
    obtain ⟨parentMember, _, rfl⟩ := of_lookup forested parentFound
    rcases forested.source stepped member with
      ⟨_, noSource⟩ | ⟨parent, _, search, sourceHere, _⟩
    · rw [isHandle, noSource] at source
      cases source
    · rw [isHandle, sourceHere] at source
      cases source
      have childEpoch := stepped.epochs _ member
      have parentEpoch := stepped.epochs _ parentMember
      simp only [dating] at childEpoch parentEpoch
      rw [forested.depth _ member, forested.depth _ parentMember] at deeper
      rw [← childEpoch, ← parentEpoch] at older
      exact .derived (get_member member) (by omega) ⟨0, search 0⟩ (get_member parentMember)
        (by omega) older ih

theorem verifyP3_lawful (forested : Forested N manager forest lists) (stepped : Stepped N manager)
    (maxDepth : Nat) :
    (∃ fuel, manager.verifyP3 N fuel index generation maxDepth = some (.ok ())) ↔
      ∃ length ≤ maxDepth, LawfulChain N manager.table forest (index, generation) length := by
  rw [verifyP3_iff]
  constructor
  · rintro ⟨⟨slot, found⟩, length, bounded, chained⟩
    have lawful := Chained.lawful forested stepped chained
    obtain ⟨_, isHandle, _⟩ :=
      @of_lookup N manager forest lists forested (index, generation) slot found
    rw [isHandle]
    exact ⟨length, bounded, lawful⟩
  · rintro ⟨length, bounded, lawful⟩
    have resolves : ∃ slot, manager.table.lookup N index generation = .ok slot := by
      cases lawful with
      | root found _ _ => exact ⟨_, found⟩
      | derived found _ _ _ _ _ => exact ⟨_, found⟩
    exact ⟨resolves, length, bounded, LawfulChain.chained forested stepped lawful⟩

/-- The walk ends, because depths decrease. -/
theorem verifyAncestors_returns (forested : Forested N manager forest lists)
    (stepped : Stepped N manager) (maxDepth epoch : Nat) :
    ∀ steps, index ∈ arena N manager.derivation →
      (manager.derivation.nodes index).depth < fuel →
      ∃ outcome, manager.derivation.verifyAncestors N maxDepth fuel steps index
        (manager.derivation.nodes index).depth epoch = some outcome := by
  induction fuel generalizing index epoch with
  | zero => exact fun _ _ enough => absurd enough (Nat.not_lt_zero _)
  | succ fuel ih =>
    intro steps member enough
    rw [verifyAncestors]
    split
    · exact ⟨_, rfl⟩
    · rcases forested.source stepped member with
        ⟨isRoot, _⟩ | ⟨parent, parentMember, found, _, deeper, _⟩
      · have none : manager.derivation.findParent N fuel index = some none := by
          obtain ⟨below, valid⟩ := mem_arena.mp member
          rw [findParent, if_neg (by simp [valid, below]), if_pos isRoot]
        rw [none]
        exact ⟨_, rfl⟩
      · rw [found]
        dsimp only
        rw [get_member parentMember]
        dsimp only
        split
        · exact ⟨_, rfl⟩
        · split
          · exact ⟨_, rfl⟩
          · split
            · exact ⟨_, rfl⟩
            · exact ih _ (steps + 1) parentMember (by omega)

theorem verifyP3_returns (forested : Forested N manager forest lists)
    (stepped : Stepped N manager) (index generation maxDepth : Nat) :
    ∃ fuel outcome, manager.verifyP3 N fuel index generation maxDepth = some outcome := by
  unfold verifyP3 Cap.verifyP3
  cases manager.table.lookup N index generation with
  | error e => exact ⟨0, _, rfl⟩
  | ok slot =>
    dsimp only
    cases held : manager.derivation.get N index with
    | none => exact ⟨0, _, rfl⟩
    | some node =>
      dsimp only
      split
      · exact ⟨0, _, rfl⟩
      · obtain ⟨member, rfl⟩ := get_eq_some.mp held
        exact ⟨_, verifyAncestors_returns forested stepped maxDepth _ 0 member
          (Nat.lt_succ_self _)⟩

theorem lawful_of_member (forested : Forested N manager forest lists) (stepped : Stepped N manager)
    (ascending : Ascending N manager) {depth : Nat} :
    ∀ index ∈ arena N manager.derivation, (manager.derivation.nodes index).depth = depth →
      LawfulChain N manager.table forest (manager.handleAt index) depth := by
  induction depth with
  | zero =>
    intro index member isRoot
    rcases forested.source stepped member with ⟨_, noSource⟩ | ⟨_, _, _, _, deeper, _⟩
    · exact .root (lookup_handleAt forested member) noSource
        ((forested.depth _ member).trans isRoot)
    · omega
  | succ depth ih =>
    intro index member isDeep
    rcases forested.source stepped member with
      ⟨isRoot, _⟩ | ⟨parent, parentMember, _, source, deeper, isParent, notNull⟩
    · omega
    · apply LawfulChain.derived (lookup_handleAt forested member) source
        (lookup_handleAt forested parentMember)
      · rw [forested.depth _ member, forested.depth _ parentMember, deeper]
      · exact ascending.rising index member parent isParent notNull
      · exact ih parent parentMember (by omega)

/-! ### Whole runs -/

theorem stepped_run {config : CapManagerConfig} {history : List (Call × Outcome)}
    (tracked : config.trackDerivation = true)
    (run : Run (Guarded (Step N) (TakesUnlisted N)) (.new config) history manager) :
    Stepped N manager ∧ manager.config = config ∧
      manager.grantPolicy.maxDepth = config.maxDelegationDepth := by
  induction run with
  | nil => exact ⟨stepped_new N config, rfl, rfl⟩
  | snoc before step ih =>
    obtain ⟨stepped, sameConfig, limit⟩ := ih
    obtain ⟨lists, forested⟩ := forested_run tracked before
    obtain ⟨_, later⟩ := forested_step (sameConfig ▸ tracked) forested step.2 step.1
    have frame := step_frame forested.table step.1
    refine ⟨stepped_step (sameConfig ▸ tracked) forested later stepped step.2 step.1,
      frame.2.2.2.trans sameConfig, ?_⟩
    rw [frame.2.2.1, limit]

/-- The insertion takes an unlisted slot, and the epoch counter does not wrap. -/
def TakesUnlistedInTime (N : Nat) (manager : CapabilityManager) (label : Call × Outcome) : Prop :=
  TakesUnlisted N manager label ∧ Unwrapped manager label

theorem ascending_run {config : CapManagerConfig} {history : List (Call × Outcome)}
    (tracked : config.trackDerivation = true)
    (run : Run (Guarded (Step N) (TakesUnlistedInTime N)) (.new config) history manager) :
    Run (Guarded (Step N) (TakesUnlisted N)) (.new config) history manager ∧
      Ascending N manager := by
  induction run with
  | nil => exact ⟨.nil, ascending_new N config⟩
  | snoc _ step ih =>
    obtain ⟨before, ascending⟩ := ih
    obtain ⟨lists, forested⟩ := forested_run tracked before
    have sameConfig := (stepped_run tracked before).2.1
    obtain ⟨_, later⟩ := forested_step (sameConfig ▸ tracked) forested step.2.1 step.1
    exact ⟨before.snoc ⟨step.1, step.2.1⟩,
      ascending_step (sameConfig ▸ tracked) forested later ascending step.2.1 step.2.2 step.1⟩

/-- In every state of a run whose insertions take unlisted slots, `verify_p3` returns and accepts
exactly the lawful chains. -/
theorem deepProofLaw (N : Nat) (config : CapManagerConfig) (tracked : config.trackDerivation = true)
    (history : List (Call × Outcome)) (manager : CapabilityManager) :
    (Run (Guarded (Step N) (TakesUnlisted N)) (.new config) history manager →
      ∀ index generation maxDepth,
        ((∃ fuel, manager.verifyP3 N fuel index generation maxDepth = some (.ok ())) ↔
          ∃ length ≤ maxDepth, LawfulChain N manager.table (delegationForest history)
            (index, generation) length) ∧
        ∃ fuel outcome, manager.verifyP3 N fuel index generation maxDepth = some outcome) ∧
    (Run (Guarded (Step N) (TakesUnlistedInTime N)) (.new config) history manager →
      ∀ index generation maxDepth, manager.table.Live N index generation →
        config.maxDelegationDepth ≤ maxDepth →
        ∃ fuel, manager.verifyP3 N fuel index generation maxDepth = some (.ok ())) := by
  constructor
  · intro run index generation maxDepth
    obtain ⟨lists, forested⟩ := forested_run tracked run
    have stepped := (stepped_run tracked run).1
    exact ⟨verifyP3_lawful forested stepped maxDepth,
      verifyP3_returns forested stepped index generation maxDepth⟩
  · intro timely index generation maxDepth live deepEnough
    obtain ⟨run, ascending⟩ := ascending_run tracked timely
    obtain ⟨lists, forested⟩ := forested_run tracked run
    obtain ⟨stepped, _, limit⟩ := stepped_run tracked run
    obtain ⟨member, rfl⟩ := forested.live_iff.mp live
    apply (verifyP3_lawful forested stepped maxDepth).mpr
    refine ⟨_, ?_, lawful_of_member forested stepped ascending index member rfl⟩
    have within := stepped.within index member
    rw [limit] at within
    exact Nat.le_trans within deepEnough

/-- After a root and one grant, the grant is verified. -/
theorem deepProofLaw_sampleChain :
    ∃ manager, Run (Guarded (Step 2) (TakesUnlistedInTime 2)) (.new .new) sampleChain manager ∧
      manager.table.Live 2 1 1 ∧
      (∃ fuel, manager.verifyP3 2 fuel 1 1 8 = some (.ok ())) ∧
      ∃ length ≤ 8, LawfulChain 2 manager.table (delegationForest sampleChain) (1, 1) length := by
  obtain ⟨manager, run, _, live⟩ := sampleChain_run
  have steady : ∀ label ∈ sampleChain, label.1 ≠ .incrementEpoch := by decide
  have timely : Run (Guarded (Step 2) (TakesUnlistedInTime 2)) (.new .new) sampleChain manager := by
    have guarded : Run (Guarded (Guarded (Step 2) (TakesUnlisted 2)) Unwrapped) (.new .new)
        sampleChain manager := by
      apply run.guarded
      intro first label rest here split _ isIncrement
      exact absurd isIncrement (steady label (by simp [split]))
    exact guarded.mono fun _ _ _ step => ⟨step.1.1, step.1.2, step.2⟩
  obtain ⟨law, accepts⟩ := deepProofLaw 2 .new rfl sampleChain manager
  have accepted := accepts timely 1 1 8 live (Nat.le_refl 8)
  exact ⟨manager, timely, live, accepted, (law run 1 1 8).1.mp accepted⟩

/-- The orphan of `sampleOrphan`, whose recorded parent's slot then goes to an unrelated root. -/
def sampleAdopted : List (Call × Outcome) :=
  sampleOrphan ++ [(.createRootCapability .device .read 0 ⟨4⟩, .ok (.handle 0 2))]

/-- The orphan is accepted though its source was revoked; roots are rejected without tracking, and
a grant from an older root after the epoch wraps. -/
theorem deepProofLaw_fails :
    (∃ manager, Run (Step 3) (.new .new) sampleAdopted manager ∧
      (∃ fuel, manager.verifyP3 3 fuel 1 1 8 = some (.ok ())) ∧
      ¬ ∃ length ≤ 8,
        LawfulChain 3 manager.table (delegationForest sampleAdopted) (1, 1) length) ∧
    (∃ manager, Run (Step 1) (.new ⟨8, false, 0⟩)
        [(.createRootCapability .region .read 0 ⟨1⟩, .ok (.handle 0 1))] manager ∧
      manager.table.Live 1 0 1 ∧ ∀ fuel, manager.verifyP3 1 fuel 0 1 8 ≠ some (.ok ())) ∧
    ∃ manager, Run (Step 2) (.new ⟨8, true, 4294967295⟩)
        [(.createRootCapability .region (.union .read .grant) 0 ⟨1⟩, .ok (.handle 0 1)),
          (.incrementEpoch, .ok .done), (.grant 0 1 .read 0 ⟨2⟩, .ok (.handle 1 1))] manager ∧
      manager.table.Live 2 1 1 ∧ ∀ fuel, manager.verifyP3 2 fuel 1 1 8 ≠ some (.ok ()) := by
  refine ⟨?_, ?_, ?_⟩
  · have created : Run (Step 3) (.new .new) (sampleAdopted.take 1) _ := Run.single ⟨0, rfl⟩
    have elder : Run (Step 3) (.new .new) (sampleAdopted.take 2) _ := created.snoc ⟨0, rfl⟩
    have younger : Run (Step 3) (.new .new) (sampleAdopted.take 3) _ := elder.snoc ⟨0, rfl⟩
    have revoked : Run (Step 3) (.new .new) (sampleAdopted.take 4) _ := younger.snoc ⟨9, rfl⟩
    have reused : Run (Step 3) (.new .new) (sampleAdopted.take 5) _ := revoked.snoc ⟨0, rfl⟩
    have orphaned : Run (Step 3) (.new .new) (sampleAdopted.take 6) _ := reused.snoc ⟨9, rfl⟩
    have adopted : Run (Step 3) (.new .new) sampleAdopted _ := orphaned.snoc ⟨0, rfl⟩
    refine ⟨_, adopted, ⟨9, rfl⟩, ?_⟩
    rintro ⟨length, _, lawful⟩
    have source : delegationForest sampleAdopted (1, 1) = some (0, 1) := by decide
    cases lawful with
    | root _ noSource _ =>
      rw [source] at noSource
      cases noSource
    | derived _ isSource found _ _ _ =>
      rw [source] at isSource
      cases isSource
      cases found
  · have created : Run (Step 1) (.new ⟨8, false, 0⟩)
        [(.createRootCapability .region .read 0 ⟨1⟩, .ok (.handle 0 1))] _ := Run.single ⟨0, rfl⟩
    refine ⟨_, created, ⟨by decide, by decide, rfl⟩, fun fuel accepted => ?_⟩
    cases accepted
  · have created : Run (Step 2) (.new ⟨8, true, 4294967295⟩)
        [(.createRootCapability .region (.union .read .grant) 0 ⟨1⟩, .ok (.handle 0 1))] _ :=
      Run.single ⟨0, rfl⟩
    have aged : Run (Step 2) (.new ⟨8, true, 4294967295⟩)
        [(.createRootCapability .region (.union .read .grant) 0 ⟨1⟩, .ok (.handle 0 1)),
          (.incrementEpoch, .ok .done)] _ := created.snoc ⟨0, rfl⟩
    refine ⟨_, aged.snoc ⟨0, rfl⟩, ⟨by decide, by decide, rfl⟩, fun fuel accepted => ?_⟩
    cases fuel with
    | zero => cases accepted
    | succ fuel => cases accepted

end CapabilityManager

end Rvm.Cap
