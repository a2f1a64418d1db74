import Rvm.Cap.Manager

/-!
Owns the P1 and P3 checks of `rvm-cap/src/verify.rs`: capability existence with
epoch and rights, and the walk from a capability to the root of its derivation
chain. The sibling scan of `find_parent` need not end on a damaged tree, so the
walk takes fuel; `none` means that it ran out.
-/

namespace Rvm.Cap

/-- All checks run in the source; the error is that of the first one failing. -/
def ProofVerifier.verifyP1 (N : Nat) (verifier : ProofVerifier) (table : CapabilityTable)
    (capIndex capGeneration : Nat) (requiredRights : CapRights) : Except ProofError Unit :=
  match table.lookup N capIndex capGeneration with
  | .error _ => .error .invalidHandle
  | .ok slot =>
    if slot.token.epoch ≠ verifier.currentEpoch then .error .staleCapability
    else if !slot.token.hasRights requiredRights then .error .insufficientRights
    else .ok ()

namespace DerivationTree

def get (N : Nat) (tree : DerivationTree) (index : Nat) : Option DerivationNode :=
  if index < N ∧ (tree.nodes index).isValid then some (tree.nodes index) else none

def siblingsContain (N : Nat) (tree : DerivationTree) (childIndex : Nat) : Nat → Nat → Option Bool
  | 0, _ => none
  | fuel + 1, cursor =>
    if cursor = u32Max then some false
    else if cursor = childIndex then some true
    else if cursor ≥ N then some false
    else siblingsContain N tree childIndex fuel (tree.nodes cursor).nextSibling

def scanParents (N fuel : Nat) (tree : DerivationTree) (childIndex : Nat) :
    List Nat → Option (Option Nat)
  | [] => some none
  | i :: rest =>
    if !(tree.nodes i).isValid then scanParents N fuel tree childIndex rest
    else
      match siblingsContain N tree childIndex fuel (tree.nodes i).firstChild with
      | none => none
      | some true => some (some (min i u32Max))
      | some false => scanParents N fuel tree childIndex rest

def findParent (N fuel : Nat) (tree : DerivationTree) (childIndex : Nat) : Option (Option Nat) :=
  if childIndex ≥ N ∨ !(tree.nodes childIndex).isValid then some none
  else if (tree.nodes childIndex).depth = 0 then some none
  else
    let cached := (tree.nodes childIndex).parentIndex
    if cached ≠ u32Max ∧ cached < N ∧ (tree.nodes cached).isValid then some (some cached)
    else scanParents N fuel tree childIndex (List.range N)

/-- The loop of `verify_p3`; `get` makes its checks of `is_valid`. Depths are
`u8` and decrease, so `steps` cannot overflow. -/
def verifyAncestors (N : Nat) (tree : DerivationTree) (maxDepth : Nat) :
    Nat → Nat → Nat → Nat → Nat → Option (Except ProofError Unit)
  | 0, _, _, _, _ => none
  | fuel + 1, steps, currentIdx, currentDepth, currentEpoch =>
    if steps + 1 > maxDepth then some (.error .derivationChainBroken)
    else
      match tree.findParent N fuel currentIdx with
      | none => none
      | some none => some (.error .derivationChainBroken)
      | some (some parentIdx) =>
        match tree.get N parentIdx with
        | none => some (.error .derivationChainBroken)
        | some parent =>
          if parent.depth ≥ currentDepth then some (.error .derivationChainBroken)
          else if parent.epoch > currentEpoch then some (.error .derivationChainBroken)
          else if parent.depth = 0 then some (.ok ())
          else
            verifyAncestors N tree maxDepth fuel (steps + 1) parentIdx parent.depth parent.epoch

end DerivationTree

/-- `ProofVerifier::verify_p3`, which reads no field of the verifier. -/
def verifyP3 (N fuel : Nat) (table : CapabilityTable) (tree : DerivationTree)
    (capIndex capGeneration maxDepth : Nat) : Option (Except ProofError Unit) :=
  match table.lookup N capIndex capGeneration with
  | .error _ => some (.error .derivationChainBroken)
  | .ok _ =>
    match tree.get N capIndex with
    | none => some (.error .derivationChainBroken)
    | some node =>
      if node.depth = 0 then some (.ok ())
      else tree.verifyAncestors N maxDepth fuel 0 capIndex node.depth node.epoch

namespace CapabilityManager

def verifyP1 (N : Nat) (manager : CapabilityManager) (capIndex capGeneration : Nat)
    (requiredRights : CapRights) : Except ProofError Unit :=
  manager.verifier.verifyP1 N manager.table capIndex capGeneration requiredRights

def verifyP3 (N fuel : Nat) (manager : CapabilityManager)
    (capIndex capGeneration maxDepth : Nat) : Option (Except ProofError Unit) :=
  Cap.verifyP3 N fuel manager.table manager.derivation capIndex capGeneration maxDepth

end CapabilityManager

namespace DerivationTree

variable {N fuel more : Nat} {tree : DerivationTree}

def ParentOf (N : Nat) (tree : DerivationTree) (index parentIdx : Nat) : Prop :=
  ∃ fuel, tree.findParent N fuel index = some (some parentIdx)

/-- A live chain with this many ancestors: all live, depths strictly decreasing
to a root, and no ancestor of a newer epoch than its child. -/
inductive Chained (N : Nat) (tree : DerivationTree) : Nat → Nat → Prop
  | root {index : Nat} {node : DerivationNode} :
      tree.get N index = some node → node.depth = 0 → Chained N tree index 0
  | derived {index parentIdx length : Nat} {node parent : DerivationNode} :
      tree.get N index = some node → node.depth ≠ 0 → ParentOf N tree index parentIdx →
      tree.get N parentIdx = some parent → parent.depth < node.depth →
      parent.epoch ≤ node.epoch → Chained N tree parentIdx length →
      Chained N tree index (length + 1)

theorem siblingsContain_mono {childIndex cursor : Nat} {found : Bool}
    (returned : siblingsContain N tree childIndex fuel cursor = some found) (le : fuel ≤ more) :
    siblingsContain N tree childIndex more cursor = some found := by
  induction fuel generalizing more cursor with
  | zero => cases returned
  | succ fuel ih =>
    obtain ⟨more, rfl⟩ := Nat.exists_eq_add_one_of_ne_zero (show more ≠ 0 by omega)
    rw [siblingsContain] at returned ⊢
    split_ifs at returned ⊢
    · exact returned
    · exact returned
    · exact returned
    · exact ih returned (by omega)

theorem scanParents_mono {childIndex : Nat} {candidates : List Nat} {found : Option Nat}
    (returned : scanParents N fuel tree childIndex candidates = some found) (le : fuel ≤ more) :
    scanParents N more tree childIndex candidates = some found := by
  induction candidates with
  | nil => exact returned
  | cons i rest ih =>
    rw [scanParents] at returned ⊢
    split
    · rw [if_pos (by assumption)] at returned
      exact ih returned
    · rw [if_neg (by assumption)] at returned
      cases contains : siblingsContain N tree childIndex fuel (tree.nodes i).firstChild with
      | none => simp [contains] at returned
      | some answer =>
        rw [contains] at returned
        rw [siblingsContain_mono contains le]
        cases answer with
        | true => exact returned
        | false => exact ih returned

theorem findParent_mono {childIndex : Nat} {found : Option Nat}
    (returned : tree.findParent N fuel childIndex = some found) (le : fuel ≤ more) :
    tree.findParent N more childIndex = some found := by
  unfold findParent at returned ⊢
  dsimp only at returned ⊢
  split_ifs at returned ⊢
  · exact returned
  · exact returned
  · exact returned
  · exact scanParents_mono returned le

theorem verifyAncestors_sound {maxDepth steps index : Nat} {node : DerivationNode}
    (held : tree.get N index = some node) (notRoot : node.depth ≠ 0)
    (accepted : tree.verifyAncestors N maxDepth fuel steps index node.depth node.epoch =
      some (.ok ())) :
    ∃ length, steps + length ≤ maxDepth ∧ Chained N tree index length := by
  induction fuel generalizing steps index node with
  | zero => cases accepted
  | succ fuel ih =>
    rw [verifyAncestors] at accepted
    split at accepted
    · cases accepted
    · rename_i within
      cases found : tree.findParent N fuel index with
      | none => simp [found] at accepted
      | some answer =>
        cases answer with
        | none => simp [found] at accepted
        | some parentIdx =>
          rw [found] at accepted
          dsimp only at accepted
          cases parentHeld : tree.get N parentIdx with
          | none => simp [parentHeld] at accepted
          | some parent =>
            rw [parentHeld] at accepted
            dsimp only at accepted
            split at accepted
            · cases accepted
            · split at accepted
              · cases accepted
              · rename_i shallower older
                have link : ∀ length, Chained N tree parentIdx length →
                    Chained N tree index (length + 1) := fun length =>
                  .derived held notRoot ⟨fuel, found⟩ parentHeld (Nat.not_le.mp shallower)
                    (Nat.not_lt.mp older)
                split at accepted
                · rename_i isRoot
                  exact ⟨1, by omega, link 0 (.root parentHeld isRoot)⟩
                · rename_i parentNotRoot
                  obtain ⟨length, bounded, chained⟩ :=
                    ih parentHeld parentNotRoot accepted
                  exact ⟨length + 1, by omega, link length chained⟩

theorem Chained.accepted {maxDepth length index : Nat} (chained : Chained N tree index length) :
    ∀ {steps : Nat} {node : DerivationNode}, tree.get N index = some node → node.depth ≠ 0 →
      steps + length ≤ maxDepth → ∃ enough, ∀ fuel, enough ≤ fuel →
        tree.verifyAncestors N maxDepth fuel steps index node.depth node.epoch = some (.ok ()) := by
  induction chained with
  | root held isRoot =>
    intro steps node again notRoot
    rw [held] at again
    cases again
    exact absurd isRoot notRoot
  | @derived index parentIdx length node parent held notRoot parentOf parentHeld shallower older
      chained ih =>
      intro steps other again _ bounded
      rw [held] at again
      cases again
      obtain ⟨searched, found⟩ := parentOf
      by_cases isRoot : parent.depth = 0
      · refine ⟨searched + 1, fun fuel enough => ?_⟩
        obtain ⟨fuel, rfl⟩ := Nat.exists_eq_add_one_of_ne_zero (show fuel ≠ 0 by omega)
        rw [verifyAncestors, if_neg (by omega), findParent_mono found (by omega)]
        dsimp only
        rw [parentHeld]
        dsimp only
        rw [if_neg (by omega), if_neg (by omega), if_pos isRoot]
      · obtain ⟨later, accepts⟩ :=
          @ih (steps + 1) parent parentHeld isRoot (by omega)
        refine ⟨max searched later + 1, fun fuel enough => ?_⟩
        obtain ⟨fuel, rfl⟩ := Nat.exists_eq_add_one_of_ne_zero (show fuel ≠ 0 by omega)
        rw [verifyAncestors, if_neg (by omega), findParent_mono found (by omega)]
        dsimp only
        rw [parentHeld]
        dsimp only
        rw [if_neg (by omega), if_neg (by omega), if_neg isRoot]
        exact accepts fuel (by omega)

end DerivationTree

namespace CapabilityManager

structure ChainVerifies (N : Nat) (manager : CapabilityManager)
    (capIndex capGeneration maxDepth : Nat) : Prop where
  resolves : ∃ slot, manager.table.lookup N capIndex capGeneration = .ok slot
  chained : ∃ length, length ≤ maxDepth ∧ manager.derivation.Chained N capIndex length

theorem verifyP3_iff {N : Nat} {manager : CapabilityManager}
    {capIndex capGeneration maxDepth : Nat} :
    (∃ fuel, manager.verifyP3 N fuel capIndex capGeneration maxDepth = some (.ok ())) ↔
      manager.ChainVerifies N capIndex capGeneration maxDepth := by
  constructor
  · rintro ⟨fuel, accepted⟩
    unfold verifyP3 Cap.verifyP3 at accepted
    cases found : manager.table.lookup N capIndex capGeneration with
    | error e => simp [found] at accepted
    | ok slot =>
      rw [found] at accepted
      dsimp only at accepted
      cases held : manager.derivation.get N capIndex with
      | none => simp [held] at accepted
      | some node =>
        rw [held] at accepted
        dsimp only at accepted
        split at accepted
        · rename_i isRoot
          exact ⟨⟨slot, found⟩, 0, Nat.zero_le _, .root held isRoot⟩
        · rename_i notRoot
          obtain ⟨length, bounded, chained⟩ :=
            DerivationTree.verifyAncestors_sound held notRoot accepted
          exact ⟨⟨slot, found⟩, length, by omega, chained⟩
  · rintro ⟨⟨slot, found⟩, length, bounded, chained⟩
    unfold verifyP3 Cap.verifyP3
    rw [found]
    dsimp only
    obtain ⟨node, held⟩ : ∃ node, manager.derivation.get N capIndex = some node := by
      cases chained with
      | root held _ => exact ⟨_, held⟩
      | derived held _ _ _ _ _ _ => exact ⟨_, held⟩
    rw [held]
    dsimp only
    by_cases isRoot : node.depth = 0
    · exact ⟨0, if_pos isRoot⟩
    · obtain ⟨enough, accepts⟩ := @DerivationTree.Chained.accepted N _ maxDepth _ _ chained 0 node
        held isRoot (by omega)
      refine ⟨enough, ?_⟩
      rw [if_neg isRoot]
      exact accepts enough (le_refl enough)

end CapabilityManager

end Rvm.Cap
