import Mathlib.Data.Set.Card
import Mathlib.Tactic.IntervalCases
import Rvm.Cap.Forest

/-!
Owns the completeness and exactness of revocation over runs whose insertions take slots that
no live node lists as a child. A revoked child stays on its parent's list, so a reused slot
can break this; the failing run stands at the end.
-/

namespace Rvm.Cap

open Foundation Foundation.Worklist DerivationTree CapabilityTable

/-- What a revocation of `root` should do: end the handles of `root` and its live descendants,
leave every other slot, and count those. -/
structure RevocationExact (N : Nat) (forest : Handle → Option Handle)
    (before after : CapabilityTable) (root : Handle) (count : Nat) : Prop where
  self : ¬ after.Live N root.1 root.2
  descendants : ∀ handle : Handle, before.Live N handle.1 handle.2 →
    Descends forest handle root → ¬ after.Live N handle.1 handle.2
  others : ∀ handle : Handle, before.Live N handle.1 handle.2 → handle ≠ root →
    ¬ Descends forest handle root →
    after.lookup N handle.1 handle.2 = before.lookup N handle.1 handle.2
  count : count =
    {handle : Handle | before.Live N handle.1 handle.2 ∧ ¬ after.Live N handle.1 handle.2}.ncard

namespace CapabilityManager

variable {N : Nat} {before after : CapabilityManager} {forest : Handle → Option Handle}
  {lists : Nat → List Nat}

structure Revoked (N : Nat) (before after : CapabilityManager) (lists : Nat → List Nat)
    (root count : Nat) (visited : List Nat) : Prop where
  nodup : visited.Nodup
  below : ∀ node, node ∈ visited ↔ Below (validChildren before.derivation lists) root node
  count : count = visited.length
  slots : ∀ other, after.table.slots other =
    if other ∈ visited then (before.table.slots other).invalidate else before.table.slots other
  nodes : after.derivation.nodes = marked before.derivation visited

theorem Forested.below_member (forested : Forested N before forest lists) {root node : Nat}
    (member : root ∈ arena N before.derivation)
    (below : Below (validChildren before.derivation lists) root node) :
    node ∈ arena N before.derivation := by
  obtain ⟨rank, ranked⟩ := forested.linked.forest.ranked
  exact (forested.linked.forest.rank_le ranked member below).1

theorem Forested.revoked {fuel index generation count : Nat}
    (forested : Forested N before forest lists)
    (called : before.revoke N fuel index generation = some (.ok count, after)) :
    index ∈ arena N before.derivation ∧ (before.table.slots index).generation = generation ∧
      ∃ visited, Revoked N before after lists index count visited := by
  rcases revoke_cases called with ⟨_, failed, _⟩ |
    ⟨slot, collected, revoked, same, _, _, found, collects, revokes, invalidated⟩
  · cases failed
  · cases same
    obtain ⟨below, rfl, live, generationEq⟩ := lookup_eq_ok.mp found
    have isLive : before.table.Live N index generation := ⟨below, generationEq ▸ live, generationEq⟩
    have member := (forested.live_iff.mp isLive).1
    -- The walks of the run agree with the walks that have enough fuel.
    have fuelLe : fuel ≤ fuel + (2 * N + 2) := by omega
    have enough : 2 * N + 1 < fuel + (2 * N + 2) := by omega
    obtain ⟨exactly, collectsExactly, _, collectedBelow⟩ :=
      collectSubtree_spec forested.linked member enough
    obtain ⟨visited, tree, revokesExactly, nodup, visitedBelow, nodes, _⟩ :=
      revoke_spec forested.linked member enough
    have sameCollected := (collectSubtree_mono collects fuelLe).symm.trans collectsExactly
    have sameRevoked := (DerivationTree.revoke_mono revokes fuelLe).symm.trans revokesExactly
    cases sameCollected
    cases sameRevoked
    refine ⟨member, generationEq, visited, nodup, visitedBelow, rfl, fun other => ?_, nodes⟩
    rw [invalidated, foldl_forceInvalidate_slots]
    have sameMember : other ∈ collected ↔ other ∈ visited := by
      rw [collectedBelow, visitedBelow]
    by_cases isVisited : other ∈ visited
    · obtain ⟨otherBelow, valid⟩ :=
        mem_arena.mp (forested.below_member member ((visitedBelow other).mp isVisited))
      have padded : other ∈ padded N collected :=
        List.mem_append_left _ (sameMember.mpr isVisited)
      rw [if_pos isVisited,
        if_pos ⟨padded, otherBelow, (forested.synced other otherBelow).mpr valid⟩]
    · rw [if_neg isVisited, if_neg]
      rintro ⟨padded, otherBelow, otherLive⟩
      rcases List.mem_append.mp padded with early | padding
      · exact isVisited (sameMember.mp early)
      · -- The padding `u32::MAX` names no live slot.
        have isNull := (List.mem_replicate.mp padding).2
        have small := forested.small other
          (mem_arena.mpr ⟨otherBelow, (forested.synced other otherBelow).mp otherLive⟩)
        omega

/-- Revocation keeps the invariant: the subtree is cut off as a whole. -/
theorem Forested.revoke {root count : Nat} {visited : List Nat}
    (forested : Forested N before forest lists) (table : after.table.Inv N)
    (revoked : Revoked N before after lists root count visited) :
    Forested N after forest lists := by
  have valid : ∀ index, (after.derivation.nodes index).isValid = true ↔
      (before.derivation.nodes index).isValid = true ∧ index ∉ visited := by
    intro index
    rw [revoked.nodes]
    exact marked_isValid visited index
  have links : ∀ index, after.derivation.nodes index =
      { before.derivation.nodes index with isValid := (after.derivation.nodes index).isValid } := by
    intro index
    rw [revoked.nodes, marked]
    split <;> rfl
  have sameParent : ∀ index, (after.derivation.nodes index).parentIndex =
      (before.derivation.nodes index).parentIndex := fun index => by rw [links]
  have sameDepth : ∀ index, (after.derivation.nodes index).depth =
      (before.derivation.nodes index).depth := fun index => by rw [links]
  have members : ∀ index, index ∈ arena N after.derivation ↔
      index ∈ arena N before.derivation ∧ index ∉ visited := by
    intro index
    rw [mem_arena, mem_arena, valid]
    tauto
  have untouched : ∀ index, index ∉ visited →
      after.table.slots index = before.table.slots index := by
    intro index notVisited
    rw [revoked.slots, if_neg notVisited]
  have parentStays : ∀ child ∈ arena N before.derivation, child ∉ visited →
      ∀ parent ∈ arena N before.derivation, child ∈ lists parent → parent ∉ visited := by
    intro child childMember notVisited parent _ childListed parentVisited
    have edge : child ∈ validChildren before.derivation lists parent :=
      List.mem_filter.mpr ⟨childListed, (mem_arena.mp childMember).2⟩
    exact notVisited ((revoked.below child).mpr (((revoked.below parent).mp parentVisited).tail edge))
  constructor
  · exact table
  · intro index below
    rw [valid, revoked.slots]
    have synced := forested.synced index below
    split
    · next isVisited => simp [isVisited]
    · next notVisited => simp [notVisited, synced]
  · exact fun index here => forested.small index ((members index).mp here).1
  · intro index here
    obtain ⟨old, -⟩ := (members index).mp here
    have chain : Chain N after.derivation (before.derivation.nodes index).firstChild (lists index) :=
      (forested.chain index old).congr fun child _ => by rw [links]
    rwa [links]
  · exact fun index here => forested.nodup index ((members index).mp here).1
  · intro index here child childListed childHere
    rw [sameParent]
    exact forested.parent index ((members index).mp here).1 child childListed
      ((members child).mp childHere).1
  · intro index here
    obtain ⟨old, notVisited⟩ := (members index).mp here
    rw [untouched index notVisited, sameDepth]
    exact forested.depth index old
  · intro child here parent isParent notNull
    obtain ⟨old, notVisited⟩ := (members child).mp here
    rw [sameParent] at isParent
    obtain ⟨parentOld, childListed, deeper⟩ := forested.listed child old parent isParent notNull
    rw [members, sameDepth, sameDepth]
    exact ⟨⟨parentOld, parentStays child old notVisited parent parentOld childListed⟩,
      childListed, deeper⟩
  · intro child here parent isParent
    obtain ⟨old, notVisited⟩ := (members child).mp here
    rw [sameParent] at isParent
    rw [untouched child notVisited, forested.agrees child old parent isParent]
    split
    · rfl
    · next notNull =>
        obtain ⟨parentOld, childListed, -⟩ := forested.listed child old parent isParent notNull
        rw [untouched parent (parentStays child old notVisited parent parentOld childListed)]

/-- What a successful revocation invalidated is exactly the subtree in the
forest. -/
theorem Forested.revocationExact {root count : Nat} {visited : List Nat}
    (forested : Forested N before forest lists) (member : root ∈ arena N before.derivation)
    (revoked : Revoked N before after lists root count visited) :
    RevocationExact N forest before.table after.table
      (root, (before.table.slots root).generation) count := by
  have failed : ∀ index generation, index ∈ visited → ¬ after.table.Live N index generation := by
    rintro index generation isVisited ⟨-, nonzero, same⟩
    rw [revoked.slots, if_pos isVisited, CapSlot.invalidate_generation] at same
    exact nonzero same.symm
  have visited_iff : ∀ handle : Handle, before.table.Live N handle.1 handle.2 →
      (handle.1 ∈ visited ↔
        handle = (root, (before.table.slots root).generation) ∨
          Descends forest handle (root, (before.table.slots root).generation)) := by
    rintro ⟨index, generation⟩ live
    have isLive : before.table.Live N index generation := live
    obtain ⟨handleMember, rfl⟩ := forested.live_iff.mp isLive
    rw [revoked.below, forested.below_iff member handleMember]
    constructor
    · rintro (rfl | descends)
      · exact Or.inl rfl
      · exact Or.inr descends
    · rintro (same | descends)
      · exact Or.inl (congrArg Prod.fst same)
      · exact Or.inr descends
  have kept : ∀ index generation, index ∉ visited →
      after.table.lookup N index generation = before.table.lookup N index generation := by
    intro index generation notVisited
    have same : after.table.slots index = before.table.slots index := by
      rw [revoked.slots, if_neg notVisited]
    simp only [CapabilityTable.lookup, same]
  refine ⟨failed root _ ((revoked.below root).mpr .refl), fun handle live descends => ?_,
    fun handle live different apart => ?_, ?_⟩
  · exact failed handle.1 handle.2 ((visited_iff handle live).mpr (Or.inr descends))
  · refine kept handle.1 handle.2 fun isVisited => ?_
    rcases (visited_iff handle live).mp isVisited with same | descends
    · exact different same
    · exact apart descends
  · -- The invalidated handles are the visited slots with their generations.
    have image : {handle : Handle | before.table.Live N handle.1 handle.2 ∧
        ¬ after.table.Live N handle.1 handle.2} =
        ((visited.toFinset.image fun index =>
          (index, (before.table.slots index).generation) : Finset Handle) : Set Handle) := by
      ext ⟨index, generation⟩
      simp only [Set.mem_ofPred_eq, Finset.coe_image, Set.mem_image, Finset.mem_coe,
        List.mem_toFinset, Prod.mk.injEq]
      constructor
      · rintro ⟨live, dead⟩
        by_cases isVisited : index ∈ visited
        · exact ⟨index, isVisited, rfl, live.2.2⟩
        · refine absurd ?_ dead
          rw [live_iff_lookup] at live ⊢
          rw [kept index generation isVisited, live, revoked.slots, if_neg isVisited]
      · rintro ⟨other, isVisited, rfl, rfl⟩
        have otherMember := forested.below_member member ((revoked.below other).mp isVisited)
        exact ⟨forested.live_iff.mpr ⟨otherMember, rfl⟩, failed other _ isVisited⟩
    rw [image, Set.ncard_coe_finset, Finset.card_image_of_injective, List.toFinset_card_of_nodup
      revoked.nodup, revoked.count]
    exact fun left right same => congrArg Prod.fst same

theorem Forested.revoke_returns {index generation : Nat}
    (forested : Forested N before forest lists) (live : before.table.Live N index generation) :
    ∃ count after, before.revoke N (2 * N + 2) index generation = some (.ok count, after) := by
  obtain ⟨member, -⟩ := forested.live_iff.mp live
  obtain ⟨collected, collects, -⟩ :=
    collectSubtree_spec forested.linked member (show 2 * N + 1 < 2 * N + 2 by omega)
  obtain ⟨visited, tree, revokes, -⟩ :=
    revoke_spec forested.linked member (show 2 * N + 1 < 2 * N + 2 by omega)
  refine ⟨visited.length, ?_⟩
  simp only [CapabilityManager.revoke, revokeCapability, live_iff_lookup.mp live, collects, revokes]
  exact ⟨_, rfl⟩

theorem forested_step {label : Call × Outcome} (tracked : before.config.trackDerivation = true)
    (forested : Forested N before forest lists) (takes : TakesUnlisted N before label)
    (step : Step N before label after) : ∃ grown, Forested N after (grow forest label) grown := by
  have table := (step_frame forested.table step).1
  obtain ⟨call, outcome⟩ := label
  cases step.answers with
  | createRoot called => exact forested.createRoot tracked takes called
  | grant grants called => exact forested.grant tracked grants takes called
  | incrementEpoch => exact ⟨lists, forested.congr rfl rfl⟩
  | @revoke _ _ _ result _ called =>
    rcases result with e | count
    · rcases revoke_cases called with ⟨_, _, quiet⟩ | ⟨_, _, _, succeeded, _⟩
      · exact ⟨lists, forested.congr quiet.table quiet.derivation⟩
      · cases succeeded
    · obtain ⟨_, _, visited, revoked⟩ := forested.revoked called
      exact ⟨lists, forested.revoke table revoked⟩

theorem forested_run {config : CapManagerConfig} {history : List (Call × Outcome)}
    {final : CapabilityManager} (tracked : config.trackDerivation = true)
    (run : Run (Guarded (Step N) (TakesUnlisted N)) (.new config) history final) :
    ∃ lists, Forested N final (delegationForest history) lists := by
  have both : final.config = config ∧
      ∃ lists, Forested N final (delegationForest history) lists := by
    induction run with
    | nil => exact ⟨rfl, _, forested_new N config⟩
    | snoc _ step ih =>
      obtain ⟨sameConfig, lists, forested⟩ := ih
      rw [delegationForest_snoc]
      exact ⟨(step_frame forested.table step.1).2.2.2.trans sameConfig,
        forested_step (sameConfig ▸ tracked) forested step.2 step.1⟩
  exact both.2

/-- In every state of a run whose insertions take unlisted slots a revocation returns, and
invalidates exactly the capability and its descendants. -/
theorem revocation_exact (N : Nat) (config : CapManagerConfig)
    (tracked : config.trackDerivation = true) (history : List (Call × Outcome))
    (final : CapabilityManager)
    (run : Run (Guarded (Step N) (TakesUnlisted N)) (.new config) history final)
    (index generation : Nat) :
    (final.table.Live N index generation →
      ∃ count after, Step N final (.revoke index generation, .ok (.revoked count)) after) ∧
    ∀ count after, Step N final (.revoke index generation, .ok (.revoked count)) after →
      RevocationExact N (delegationForest history) final.table after.table (index, generation)
        count := by
  obtain ⟨lists, forested⟩ := forested_run tracked run
  constructor
  · intro live
    obtain ⟨count, after, returned⟩ := forested.revoke_returns live
    exact ⟨count, after, 2 * N + 2, Option.map_eq_some_iff.mpr ⟨_, returned, rfl⟩⟩
  · rintro count after ⟨fuel, returned⟩
    obtain ⟨⟨result, manager⟩, called, same⟩ := Option.map_eq_some_iff.mp returned
    rcases result with e | revokedCount
    · cases same
    · cases same
      obtain ⟨member, rfl, visited, revoked⟩ := forested.revoked called
      exact forested.revocationExact member revoked

def sampleChain : List (Call × Outcome) :=
  [(.createRootCapability .region (.union .read .grant) 0 ⟨1⟩, .ok (.handle 0 1)),
    (.grant 0 1 .read 0 ⟨2⟩, .ok (.handle 1 1))]

theorem sampleChain_run :
    ∃ final, Run (Guarded (Step 2) (TakesUnlisted 2)) (.new .new) sampleChain final ∧
      final.table.Live 2 0 1 ∧ final.table.Live 2 1 1 := by
  have rootTakes : TakesUnlisted 2 (.new .new)
      (.createRootCapability .region (.union .read .grant) 0 ⟨1⟩, .ok (.handle 0 1)) := by
    intro slot taken
    cases (show some 0 = some slot from taken)
    refine ⟨by decide, fun parent member => ?_⟩
    cases (mem_arena.mp member).2
  have childTakes : ∀ middle, Step 2 (.new .new)
      (.createRootCapability .region (.union .read .grant) 0 ⟨1⟩, .ok (.handle 0 1)) middle →
      TakesUnlisted 2 middle (.grant 0 1 .read 0 ⟨2⟩, .ok (.handle 1 1)) := by
    rintro middle ⟨fuel, returned⟩ slot taken
    cases returned
    cases (show some 1 = some slot from taken)
    refine ⟨by decide, fun parent member isListed => ?_⟩
    obtain ⟨below, valid⟩ := mem_arena.mp member
    interval_cases parent
    · rcases Relation.ReflTransGen.cases_head isListed with same | ⟨_, ⟨_, notNull, _⟩, _⟩
      · cases same
      · exact notNull rfl
    · cases valid
  have granted : Run (Guarded (Step 2) (TakesUnlisted 2)) (.new .new) sampleChain _ :=
    .cons ⟨⟨0, rfl⟩, rootTakes⟩ <| .single ⟨⟨0, rfl⟩, childTakes _ ⟨0, rfl⟩⟩
  exact ⟨_, granted, ⟨by decide, by decide, rfl⟩, by decide, by decide, rfl⟩

/-- In the state after them, revoking the root is exact. -/
theorem revocation_exact_sampleChain :
    ∃ final, Run (Guarded (Step 2) (TakesUnlisted 2)) (.new .new) sampleChain final ∧
      ∃ count after, Step 2 final (.revoke 0 1, .ok (.revoked count)) after ∧
        RevocationExact 2 (delegationForest sampleChain) final.table after.table (0, 1) count := by
  obtain ⟨final, granted, live, _⟩ := sampleChain_run
  obtain ⟨returns, exactly⟩ := revocation_exact 2 .new rfl sampleChain final granted 0 1
  obtain ⟨count, after, step⟩ := returns live
  exact ⟨final, granted, count, after, step, exactly count after step⟩

/-- A revoked child's slot, still listed under its parent, is reused for a root
of its own. -/
def sampleReuse : List (Call × Outcome) :=
  sampleChain ++
    [(.revoke 1 1, .ok (.revoked 1)),
      (.createRootCapability .device .read 0 ⟨3⟩, .ok (.handle 1 2))]

/-- Revoking the old parent then takes the unrelated root down with it. -/
theorem revocation_not_exact_after_reuse :
    ∃ final after, Run (Step 2) (.new .new) sampleReuse final ∧
      Step 2 final (.revoke 0 1, .ok (.revoked 2)) after ∧
      ¬ RevocationExact 2 (delegationForest sampleReuse) final.table after.table (0, 1) 2 := by
  have reused : Run (Step 2) (.new .new) sampleReuse _ :=
    .cons ⟨0, rfl⟩ <| .cons ⟨0, rfl⟩ <| .cons ⟨9, rfl⟩ <| .single ⟨0, rfl⟩
  refine ⟨_, _, reused, ⟨9, rfl⟩, fun exactly => ?_⟩
  have apart : ¬ Descends (delegationForest sampleReuse) (1, 2) (0, 1) := by
    intro descends
    obtain ⟨parent, edge, -⟩ := Relation.TransGen.head'_iff.mp descends
    have noParent : delegationForest sampleReuse (1, 2) = none := by decide
    rw [noParent] at edge
    cases edge
  have same := exactly.others (1, 2) ⟨by decide, by decide, rfl⟩ (by decide) apart
  cases same

end CapabilityManager

end Rvm.Cap
