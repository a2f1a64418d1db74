import Rvm.Foundation.Run
import Rvm.Foundation.Slots
import Rvm.Memory.Tier

/-!
Owns the invariants of the tier manager over runs: one slot a region, the count of
tracked regions, bounded scores, when a promotion succeeds, and what the scan for
regions to demote reports.
-/

namespace Rvm.Memory

open Foundation List RegionTierState

namespace TierManager

def maxScore : Nat := 10000

/-- The table as calls leave it. -/
structure Sound (maxRegions : Nat) (thresholds : TierThresholds) (manager : TierManager) :
    Prop where
  distinct : Distinct maxRegions occupied regionId manager.regions
  counted : manager.count = occupied maxRegions fun i => (manager.regions i).occupied
  cutValue : ∀ i, (manager.regions i).cutValue ≤ maxScore
  recencyScore : ∀ i, (manager.regions i).recencyScore ≤ maxScore
  unchanged : manager.thresholds = thresholds

variable {maxRegions regionId i : Nat} {thresholds : TierThresholds} {manager next : TierManager}

theorem Sound.findSlot_eq_some_iff (sound : Sound maxRegions thresholds manager) :
    manager.findSlot maxRegions regionId = some i ↔
      i < maxRegions ∧ (manager.regions i).occupied = true ∧
        (manager.regions i).regionId = regionId := by
  unfold findSlot
  rw [find_range_eq_some_iff, decide_eq_true_iff]
  intro j k jBelow kBelow jPasses kPasses
  rw [decide_eq_true_iff] at jPasses kPasses
  exact sound.distinct j k jBelow kBelow jPasses.1 kPasses.1 (jPasses.2.trans kPasses.2.symm)

theorem findSlot_eq_none (missing : manager.findSlot maxRegions regionId = none)
    (below : i < maxRegions) (inUse : (manager.regions i).occupied = true) :
    (manager.regions i).regionId ≠ regionId := by
  have missed := List.find?_eq_none.mp missing i (mem_range.mpr below)
  simpa [inUse] using missed

theorem sound_withThresholds (maxRegions : Nat) (thresholds : TierThresholds) :
    Sound maxRegions thresholds (withThresholds thresholds) where
  distinct := fun _ _ _ _ held => by cases held
  counted := occupied_none.symm
  cutValue := fun _ => Nat.zero_le _
  recencyScore := fun _ => Nat.zero_le _
  unchanged := rfl

theorem bounds_setRegion {score : RegionTierState → Nat} {region : RegionTierState}
    (bounded : ∀ j, score (manager.regions j) ≤ maxScore) (kept : score region ≤ maxScore)
    (j : Nat) :
    score ((manager.setRegion i region).regions j) ≤ maxScore := by
  by_cases here : j = i
  · rw [here, setRegion_regions, Function.update_self]
    exact kept
  · rw [setRegion_regions, Function.update_of_ne here]
    exact bounded j

theorem Sound.setRegion (sound : Sound maxRegions thresholds manager) {region : RegionTierState}
    (below : i < maxRegions) (inUse : (manager.regions i).occupied = true)
    (stays : region.occupied = true) (sameId : region.regionId = (manager.regions i).regionId)
    (cutValue : region.cutValue ≤ maxScore) (recencyScore : region.recencyScore ≤ maxScore) :
    Sound maxRegions thresholds (manager.setRegion i region) where
  distinct := sound.distinct.replace below inUse sameId
  counted := by
    refine sound.counted.trans (occupied_congr fun j _ => ?_).symm
    rw [setRegion_regions]
    by_cases here : j = i
    · rw [here, Function.update_self, stays, inUse]
    · rw [Function.update_of_ne here]
  cutValue := bounds_setRegion sound.cutValue cutValue
  recencyScore := bounds_setRegion sound.recencyScore recencyScore
  unchanged := sound.unchanged

theorem Sound.register (sound : Sound maxRegions thresholds manager) {initialTier : Tier}
    (registered : manager.register maxRegions regionId initialTier = .ok next) :
    Sound maxRegions thresholds next := by
  unfold TierManager.register at registered
  split at registered
  · cases registered
  · split at registered
    · cases registered
    · next isNew =>
        have missing : manager.findSlot maxRegions regionId = none := by simpa using isNew
        split at registered
        · next i free =>
            cases registered
            have below := mem_range.mp (mem_of_find?_eq_some free)
            have isFree : (manager.regions i).occupied = false := by
              simpa using List.find?_some free
            constructor
            · exact sound.distinct.update fun _ j jBelow _ jHeld =>
                findSlot_eq_none missing jBelow jHeld
            · exact congrArg (· + 1) sound.counted |>.trans
                (@occupied_update _ _ _ _ occupied _ below isFree rfl).symm
            · exact bounds_setRegion sound.cutValue (Nat.zero_le _)
            · exact bounds_setRegion sound.recencyScore (show 5000 ≤ maxScore by decide)
            · exact sound.unchanged
        · cases registered

theorem Sound.unregister (sound : Sound maxRegions thresholds manager)
    (removed : manager.unregister maxRegions regionId = .ok next) :
    Sound maxRegions thresholds next := by
  unfold TierManager.unregister at removed
  split at removed
  · next i found =>
      cases removed
      obtain ⟨below, inUse, -⟩ := sound.findSlot_eq_some_iff.mp found
      constructor
      · exact sound.distinct.update nofun
      · have cleared := @occupied_erase _ maxRegions i manager.regions occupied
          .empty below inUse rfl
        have counted := sound.counted
        dsimp only [TierManager.setRegion]
        omega
      · exact bounds_setRegion sound.cutValue (Nat.zero_le _)
      · exact bounds_setRegion sound.recencyScore (Nat.zero_le _)
      · exact sound.unchanged
  · cases removed

theorem Sound.modify (sound : Sound maxRegions thresholds manager)
    {change : RegionTierState → RegionTierState}
    (occupied : ∀ region, (change region).occupied = region.occupied)
    (sameId : ∀ region, (change region).regionId = region.regionId)
    (cutValue : ∀ region, region.cutValue ≤ maxScore → (change region).cutValue ≤ maxScore)
    (recencyScore : ∀ region, region.recencyScore ≤ maxScore →
      (change region).recencyScore ≤ maxScore)
    (modified : manager.modify maxRegions regionId change = .ok next) :
    Sound maxRegions thresholds next := by
  unfold TierManager.modify at modified
  split at modified
  · next i found =>
      cases modified
      obtain ⟨below, inUse, -⟩ := sound.findSlot_eq_some_iff.mp found
      exact sound.setRegion below inUse ((occupied _).trans inUse) (sameId _)
        (cutValue _ (sound.cutValue i)) (recencyScore _ (sound.recencyScore i))
  · cases modified

theorem Sound.recordAccess (sound : Sound maxRegions thresholds manager)
    (accessed : manager.recordAccess maxRegions regionId = .ok next) :
    Sound maxRegions thresholds next := by
  refine sound.modify ?_ ?_ ?_ ?_ accessed
  · exact fun _ => rfl
  · exact fun _ => rfl
  · exact fun _ kept => kept
  · exact fun _ _ => Nat.min_le_right _ _

theorem Sound.updateCutValue (sound : Sound maxRegions thresholds manager) {cutValue : Nat}
    (cut : manager.updateCutValue maxRegions regionId cutValue = .ok next) :
    Sound maxRegions thresholds next := by
  refine sound.modify ?_ ?_ ?_ ?_ cut
  · exact fun _ => rfl
  · exact fun _ => rfl
  · exact fun _ _ => Nat.min_le_right _ _
  · exact fun _ kept => kept

theorem Sound.promote_spec (sound : Sound maxRegions thresholds manager) {target oldTier : Tier}
    (promoted : manager.promote maxRegions regionId target = .ok (oldTier, next)) :
    ∃ i, i < maxRegions ∧ (manager.regions i).occupied = true ∧
      (manager.regions i).regionId = regionId ∧ oldTier = (manager.regions i).tier ∧
      target.index < oldTier.index ∧
      manager.promotionThreshold target ≤ (manager.regions i).residencyScore ∧
      next = manager.setRegion i { manager.regions i with
        tier := target, lastAccessEpoch := manager.currentEpoch } := by
  simp only [promote] at promoted
  split at promoted
  · cases promoted
  · next i found =>
      split at promoted
      · cases promoted
      · next hotter =>
          split at promoted
          · cases promoted
          · split at promoted
            · cases promoted
            · next reached =>
                cases promoted
                obtain ⟨below, inUse, sameId⟩ := sound.findSlot_eq_some_iff.mp found
                exact ⟨i, below, inUse, sameId, rfl, Nat.not_le.mp hotter, Nat.not_lt.mp reached,
                  rfl⟩

theorem Sound.demote_spec (sound : Sound maxRegions thresholds manager) {target oldTier : Tier}
    (demoted : manager.demote maxRegions regionId target = .ok (oldTier, next)) :
    ∃ i, i < maxRegions ∧ (manager.regions i).occupied = true ∧
      next = manager.setRegion i { manager.regions i with tier := target } := by
  simp only [demote] at demoted
  split at demoted
  · cases demoted
  · next i found =>
      split at demoted
      · cases demoted
      · cases demoted
        obtain ⟨below, inUse, -⟩ := sound.findSlot_eq_some_iff.mp found
        exact ⟨i, below, inUse, rfl⟩

theorem Sound.decayRecency (sound : Sound maxRegions thresholds manager) (decayAmount : Nat) :
    Sound maxRegions thresholds (manager.decayRecency decayAmount) := by
  have decayed : ∀ i, ((manager.decayRecency decayAmount).regions i).occupied =
        (manager.regions i).occupied ∧
      ((manager.decayRecency decayAmount).regions i).regionId = (manager.regions i).regionId ∧
      ((manager.decayRecency decayAmount).regions i).cutValue = (manager.regions i).cutValue ∧
      ((manager.decayRecency decayAmount).regions i).recencyScore ≤
        (manager.regions i).recencyScore := by
    intro i
    dsimp only [TierManager.decayRecency]
    split
    · exact ⟨rfl, rfl, rfl, Nat.sub_le _ _⟩
    · exact ⟨rfl, rfl, rfl, Nat.le_refl _⟩
  constructor
  · intro j k jBelow kBelow jHeld kHeld same
    rw [(decayed j).1] at jHeld
    rw [(decayed k).1] at kHeld
    rw [(decayed j).2.1, (decayed k).2.1] at same
    exact sound.distinct j k jBelow kBelow jHeld kHeld same
  · exact sound.counted.trans (occupied_congr fun i _ => (decayed i).1).symm
  · exact fun i => (decayed i).2.2.1 ▸ sound.cutValue i
  · exact fun i => (decayed i).2.2.2.trans (sound.recencyScore i)
  · exact sound.unchanged

theorem settled {Kept : TierManager → Prop} {result : Except RvmError TierManager}
    (before : Kept manager) (after : ∀ next, result = .ok next → Kept next) :
    Kept (apply.settle manager result).2 := by
  cases ended : result with
  | error e => exact before
  | ok next => exact after next ended

theorem settled_moved {Kept : TierManager → Prop} {result : Except RvmError (Tier × TierManager)}
    (before : Kept manager) (after : ∀ oldTier next, result = .ok (oldTier, next) → Kept next) :
    Kept (apply.moved manager result).2 := by
  cases ended : result with
  | error e => exact before
  | ok moved => exact after moved.1 moved.2 ended

theorem Sound.apply (sound : Sound maxRegions thresholds manager) (call : TierCall) :
    Sound maxRegions thresholds (manager.apply maxRegions call).2 := by
  cases call with
  | register regionId initialTier =>
    exact settled sound fun _ registered => sound.register registered
  | unregister regionId => exact settled sound fun _ removed => sound.unregister removed
  | recordAccess regionId => exact settled sound fun _ accessed => sound.recordAccess accessed
  | updateCutValue regionId cutValue => exact settled sound fun _ cut => sound.updateCutValue cut
  | promote regionId target =>
    refine settled_moved sound fun oldTier next promoted => ?_
    obtain ⟨i, below, inUse, -, -, -, -, rfl⟩ := sound.promote_spec promoted
    exact sound.setRegion below inUse inUse rfl (sound.cutValue i) (sound.recencyScore i)
  | demote regionId target =>
    refine settled_moved sound fun oldTier next demoted => ?_
    obtain ⟨i, below, inUse, rfl⟩ := sound.demote_spec demoted
    exact sound.setRegion below inUse inUse rfl (sound.cutValue i) (sound.recencyScore i)
  | decayRecency decayAmount => exact sound.decayRecency decayAmount
  | advanceEpoch =>
    exact ⟨sound.distinct, sound.counted, sound.cutValue, sound.recencyScore, sound.unchanged⟩

theorem sound_run {history : List (TierCall × Except RvmError (Option Tier))}
    (run : Run (Step maxRegions) (withThresholds thresholds) history manager) :
    Sound maxRegions thresholds manager := by
  apply run.stateInvariant (sound_withThresholds maxRegions thresholds)
  intro here label next sound step
  have ended : here.apply maxRegions label.1 = (label.2, next) := step
  have kept := sound.apply label.1
  rwa [ended] at kept

/-- The threshold below which a region of the tier is to be demoted. -/
def demotionThreshold (thresholds : TierThresholds) : Tier → Option Nat
  | .hot => some thresholds.hotToWarm
  | .warm => some thresholds.warmToDormant
  | .dormant => some thresholds.dormantToCold
  | .cold => none

def colder : Tier → Tier
  | .hot => .warm
  | .warm => .dormant
  | .dormant | .cold => .cold

theorem demotionTarget_eq_some_iff {slot : RegionTierState} {target : Tier} :
    manager.demotionTarget slot = some target ↔
      (∃ threshold, demotionThreshold manager.thresholds slot.tier = some threshold ∧
        slot.residencyScore < threshold) ∧ target = colder slot.tier := by
  unfold demotionTarget demotionThreshold colder
  cases slot.tier <;> simp [eq_comm]

/-- What the scan has to report of a slot. -/
def candidate (manager : TierManager) (i : Nat) : Option (Nat × Tier) :=
  if (manager.regions i).occupied then
    (manager.demotionTarget (manager.regions i)).map fun target =>
      ((manager.regions i).regionId, target)
  else none

/-- All regions to demote, in the order of the slots. -/
def candidates (maxRegions : Nat) (manager : TierManager) : List (Nat × Tier) :=
  (List.range maxRegions).filterMap manager.candidate

/-- The buffer and the number written behind a slot's candidate. -/
def afterSlot (manager : TierManager) (state : List (Nat × Tier) × Nat) (i : Nat) :
    List (Nat × Tier) × Nat :=
  match manager.candidate i with
  | some entry =>
    if state.2 < state.1.length then (state.1.set state.2 entry, state.2 + 1) else state
  | none => state

theorem findDemotionCandidates_eq_foldl (manager : TierManager) (out : List (Nat × Tier)) :
    manager.findDemotionCandidates maxRegions out =
      (List.range maxRegions).foldl manager.afterSlot (out, 0) := by
  unfold findDemotionCandidates
  congr 1
  funext state i
  unfold afterSlot candidate
  cases inUse : (manager.regions i).occupied with
  | false => simp [inUse]
  | true =>
    cases targeted : manager.demotionTarget (manager.regions i) with
    | none => simp [inUse, targeted]
    | some target =>
      by_cases room : state.2 < state.1.length
      · simp [inUse, targeted, room, Nat.not_le.mpr room]
      · simp [inUse, room, Nat.not_lt.mp room]

/-- The scan writes the candidates behind what it has written while there is room. -/
theorem foldl_afterSlot (manager : TierManager) (indices : List Nat)
    (done rest : List (Nat × Tier)) :
    indices.foldl manager.afterSlot (done ++ rest, done.length) =
      (done ++ ((indices.filterMap manager.candidate).take rest.length ++
          rest.drop ((indices.filterMap manager.candidate).take rest.length).length),
        done.length + ((indices.filterMap manager.candidate).take rest.length).length) := by
  induction indices generalizing done rest with
  | nil => simp
  | cons i later ih =>
    rw [foldl_cons]
    cases reported : manager.candidate i with
    | none =>
      rw [filterMap_cons_none reported, afterSlot, reported]
      exact ih done rest
    | some entry =>
      rw [filterMap_cons_some reported, afterSlot, reported]
      cases rest with
      | nil => simpa using ih done []
      | cons first others =>
        have next := ih (done ++ [entry]) others
        simpa [Nat.add_assoc, Nat.add_comm 1] using next

theorem findDemotionCandidates_eq (manager : TierManager) (out : List (Nat × Tier)) :
    manager.findDemotionCandidates maxRegions out =
      let fitting := (manager.candidates maxRegions).take out.length
      (fitting ++ out.drop fitting.length, fitting.length) := by
  have whole := foldl_afterSlot manager (List.range maxRegions) [] out
  rw [nil_append, nil_append, length_nil, Nat.zero_add] at whole
  rw [findDemotionCandidates_eq_foldl, whole]
  rfl

theorem mem_candidates {target : Tier} :
    (regionId, target) ∈ manager.candidates maxRegions ↔
      ∃ i, i < maxRegions ∧ (manager.regions i).occupied = true ∧
        (manager.regions i).regionId = regionId ∧
        (∃ threshold, demotionThreshold manager.thresholds (manager.regions i).tier =
            some threshold ∧ (manager.regions i).residencyScore < threshold) ∧
        target = colder (manager.regions i).tier := by
  unfold candidates
  rw [mem_filterMap]
  refine exists_congr fun i => ?_
  rw [mem_range, ← demotionTarget_eq_some_iff, candidate]
  cases (manager.regions i).occupied <;> simp [and_comm]

theorem Sound.candidates_nodup (sound : Sound maxRegions thresholds manager) :
    ((manager.candidates maxRegions).map Prod.fst).Nodup := by
  unfold candidates
  rw [map_filterMap]
  refine pairwise_filterMap.mpr (nodup_range.imp_of_mem ?_)
  intro i j iMember jMember different left leftReported right rightReported same
  have owner : ∀ {k identifier}, identifier ∈ (manager.candidate k).map Prod.fst →
      (manager.regions k).occupied = true ∧ (manager.regions k).regionId = identifier := by
    intro k identifier reported
    unfold candidate at reported
    cases inUse : (manager.regions k).occupied with
    | false => simp [inUse] at reported
    | true =>
      cases targeted : manager.demotionTarget (manager.regions k) with
      | none => simp [inUse, targeted] at reported
      | some target =>
        simp [inUse, targeted] at reported
        exact ⟨rfl, reported⟩
  obtain ⟨leftHeld, leftId⟩ := owner leftReported
  obtain ⟨rightHeld, rightId⟩ := owner rightReported
  exact different (sound.distinct i j (mem_range.mp iMember) (mem_range.mp jMember)
    leftHeld rightHeld (leftId.trans (same.trans rightId.symm)))

/-- Identifiers are unique, the count counts, promotions are earned, and the scan finds exactly
the regions below their threshold. -/
theorem tierInvariants (maxRegions : Nat) (thresholds : TierThresholds)
    (history : List (TierCall × Except RvmError (Option Tier))) (manager : TierManager)
    (run : Run (Step maxRegions) (withThresholds thresholds) history manager) :
    Distinct maxRegions RegionTierState.occupied RegionTierState.regionId manager.regions ∧
    manager.count = occupied maxRegions (fun i => (manager.regions i).occupied) ∧
    (∀ i, (manager.regions i).cutValue ≤ 10000 ∧ (manager.regions i).recencyScore ≤ 10000) ∧
    manager.thresholds = thresholds ∧
    (∀ regionId target oldTier next,
      manager.promote maxRegions regionId target = .ok (oldTier, next) →
      ∃ region, manager.get maxRegions regionId = some region ∧ oldTier = region.tier ∧
        target.index < region.tier.index ∧
        manager.promotionThreshold target ≤ region.residencyScore) ∧
    ∃ due : List (Nat × Tier), (due.map Prod.fst).Nodup ∧
      (∀ regionId target, (regionId, target) ∈ due ↔
        ∃ i, i < maxRegions ∧ (manager.regions i).occupied = true ∧
          (manager.regions i).regionId = regionId ∧
          (∃ threshold, demotionThreshold thresholds (manager.regions i).tier = some threshold ∧
            (manager.regions i).residencyScore < threshold) ∧
          target = colder (manager.regions i).tier) ∧
      ∀ out : List (Nat × Tier), manager.findDemotionCandidates maxRegions out =
        (due.take out.length ++ out.drop (due.take out.length).length,
          (due.take out.length).length) := by
  have sound := sound_run run
  refine ⟨sound.distinct, sound.counted, fun i => ⟨sound.cutValue i, sound.recencyScore i⟩,
    sound.unchanged, ?_, manager.candidates maxRegions, sound.candidates_nodup, ?_,
    findDemotionCandidates_eq manager⟩
  · intro regionId target oldTier next promoted
    obtain ⟨i, below, inUse, sameId, rfl, hotter, reached, -⟩ := sound.promote_spec promoted
    have found := sound.findSlot_eq_some_iff.mpr ⟨below, inUse, sameId⟩
    exact ⟨manager.regions i, by rw [get, found, Option.map_some], rfl, hotter, reached⟩
  · intro regionId target
    rw [mem_candidates, sound.unchanged]

/-- One warm region with a residency score below its threshold. -/
theorem tierInvariants_oneRegion : ∃ manager, Run (Step 2) (withThresholds .default)
    [(.register 7 .warm, .ok none), (.decayRecency 3000, .ok none)] manager ∧
    manager.count = occupied 2 fun i => (manager.regions i).occupied := by
  have run : Run (Step 2) (withThresholds .default) ([(.register 7 .warm, .ok none)] ++
      [(.decayRecency 3000, .ok none)]) _ :=
    .cons rfl <| .single rfl
  exact ⟨_, run, (tierInvariants 2 .default _ _ run).2.1⟩

end TierManager

end Rvm.Memory
