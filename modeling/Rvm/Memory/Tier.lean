import Mathlib.Data.List.Range
import Rvm.Types.Basic

/-!
Owns the tier manager of `rvm-memory/src/tier.rs`: four memory tiers, residency
scores, the promotions and demotions of tracked regions, the scan for regions to
demote, and the calls as a labelled step relation.
-/

namespace Rvm.Memory

/-- The four memory tiers, hottest first. -/
inductive Tier where
  | hot | warm | dormant | cold
deriving DecidableEq, Repr

def Tier.index : Tier → Nat
  | .hot => 0
  | .warm => 1
  | .dormant => 2
  | .cold => 3

structure TierThresholds where
  hotToWarm : Nat
  warmToDormant : Nat
  dormantToCold : Nat
  warmToHot : Nat
  dormantToWarm : Nat
deriving DecidableEq, Repr

def TierThresholds.default : TierThresholds := ⟨7000, 4000, 1000, 8000, 5000⟩

structure RegionTierState where
  regionId : Nat
  tier : Tier
  lastAccessEpoch : Nat
  cutValue : Nat
  recencyScore : Nat
  occupied : Bool
deriving DecidableEq, Repr

def RegionTierState.empty : RegionTierState := ⟨0, .warm, 0, 0, 0, false⟩

def RegionTierState.residencyScore (region : RegionTierState) : Nat :=
  min (region.cutValue + region.recencyScore) 65535

structure TierManager where
  regions : Nat → RegionTierState
  count : Nat
  thresholds : TierThresholds
  currentEpoch : Nat

namespace TierManager

def new : TierManager := ⟨fun _ => .empty, 0, .default, 0⟩

def withThresholds (thresholds : TierThresholds) : TierManager :=
  ⟨fun _ => .empty, 0, thresholds, 0⟩

def advanceEpoch (manager : TierManager) : TierManager :=
  { manager with currentEpoch := min (manager.currentEpoch + 1) 4294967295 }

def findSlot (maxRegions : Nat) (manager : TierManager) (regionId : Nat) : Option Nat :=
  (List.range maxRegions).find? fun i =>
    (manager.regions i).occupied = true ∧ (manager.regions i).regionId = regionId

def setRegion (manager : TierManager) (i : Nat) (region : RegionTierState) : TierManager :=
  { manager with regions := Function.update manager.regions i region }

@[simp] theorem setRegion_regions (manager : TierManager) (i : Nat) (region : RegionTierState) :
    (manager.setRegion i region).regions = Function.update manager.regions i region := rfl

def register (maxRegions : Nat) (manager : TierManager) (regionId : Nat) (initialTier : Tier) :
    Except RvmError TierManager :=
  if manager.count ≥ maxRegions then .error .resourceLimitExceeded
  else if (manager.findSlot maxRegions regionId).isSome then .error .memoryOverlap
  else
    match (List.range maxRegions).find? fun i => (manager.regions i).occupied = false with
    | some i =>
      .ok { manager.setRegion i ⟨regionId, initialTier, manager.currentEpoch, 0, 5000, true⟩ with
        count := manager.count + 1 }
    | none => .error .resourceLimitExceeded

def unregister (maxRegions : Nat) (manager : TierManager) (regionId : Nat) :
    Except RvmError TierManager :=
  match manager.findSlot maxRegions regionId with
  | some i => .ok { manager.setRegion i .empty with count := manager.count - 1 }
  | none => .error .partitionNotFound

def get (maxRegions : Nat) (manager : TierManager) (regionId : Nat) : Option RegionTierState :=
  (manager.findSlot maxRegions regionId).map manager.regions

def modify (maxRegions : Nat) (manager : TierManager) (regionId : Nat)
    (change : RegionTierState → RegionTierState) : Except RvmError TierManager :=
  match manager.findSlot maxRegions regionId with
  | some i => .ok (manager.setRegion i (change (manager.regions i)))
  | none => .error .partitionNotFound

def recordAccess (maxRegions : Nat) (manager : TierManager) (regionId : Nat) :
    Except RvmError TierManager :=
  manager.modify maxRegions regionId fun region =>
    { region with
      lastAccessEpoch := manager.currentEpoch
      recencyScore := min (min (region.recencyScore + 1000) 65535) 10000 }

def updateCutValue (maxRegions : Nat) (manager : TierManager) (regionId cutValue : Nat) :
    Except RvmError TierManager :=
  manager.modify maxRegions regionId fun region => { region with cutValue := min cutValue 10000 }

def promotionThreshold (manager : TierManager) : Tier → Nat
  | .hot => manager.thresholds.warmToHot
  | .warm => manager.thresholds.dormantToWarm
  | .dormant | .cold => 65535

def promote (maxRegions : Nat) (manager : TierManager) (regionId : Nat) (target : Tier) :
    Except RvmError (Tier × TierManager) :=
  match manager.findSlot maxRegions regionId with
  | none => .error .partitionNotFound
  | some i =>
    let region := manager.regions i
    if target.index ≥ region.tier.index then .error .invalidTierTransition
    else if region.tier = .cold then .error .invalidTierTransition
    else if region.residencyScore < manager.promotionThreshold target then
      .error .coherenceBelowThreshold
    else
      .ok (region.tier, manager.setRegion i
        { region with tier := target, lastAccessEpoch := manager.currentEpoch })

def demote (maxRegions : Nat) (manager : TierManager) (regionId : Nat) (target : Tier) :
    Except RvmError (Tier × TierManager) :=
  match manager.findSlot maxRegions regionId with
  | none => .error .partitionNotFound
  | some i =>
    let region := manager.regions i
    if target.index ≤ region.tier.index then .error .invalidTierTransition
    else .ok (region.tier, manager.setRegion i { region with tier := target })

def decayRecency (manager : TierManager) (decayAmount : Nat) : TierManager :=
  { manager with
    regions := fun i =>
      let region := manager.regions i
      if region.occupied then { region with recencyScore := region.recencyScore - decayAmount }
      else region }

def demotionTarget (manager : TierManager) (slot : RegionTierState) : Option Tier :=
  match slot.tier with
  | .hot => if slot.residencyScore < manager.thresholds.hotToWarm then some .warm else none
  | .warm => if slot.residencyScore < manager.thresholds.warmToDormant then some .dormant else none
  | .dormant => if slot.residencyScore < manager.thresholds.dormantToCold then some .cold else none
  | .cold => none

/-- Write the recommendations to the caller's buffer while there is room; returns
the buffer and the number written. -/
def findDemotionCandidates (maxRegions : Nat) (manager : TierManager) (out : List (Nat × Tier)) :
    List (Nat × Tier) × Nat :=
  (List.range maxRegions).foldl (fun state i =>
    let slot := manager.regions i
    if !slot.occupied || decide (state.2 ≥ state.1.length) then state
    else
      match manager.demotionTarget slot with
      | some targetTier => (state.1.set state.2 (slot.regionId, targetTier), state.2 + 1)
      | none => state) (out, 0)

end TierManager

inductive TierCall where
  | register (regionId : Nat) (initialTier : Tier)
  | unregister (regionId : Nat)
  | recordAccess (regionId : Nat)
  | updateCutValue (regionId cutValue : Nat)
  | promote (regionId : Nat) (target : Tier)
  | demote (regionId : Nat) (target : Tier)
  | decayRecency (decayAmount : Nat)
  | advanceEpoch
deriving DecidableEq, Repr

namespace TierManager

/-- The outcome of a call, which for a change of tier is the previous one, and the
manager it leaves; a failing call leaves the manager alone. -/
def apply (maxRegions : Nat) (manager : TierManager) :
    TierCall → Except RvmError (Option Tier) × TierManager
  | .register regionId initialTier => settle (manager.register maxRegions regionId initialTier)
  | .unregister regionId => settle (manager.unregister maxRegions regionId)
  | .recordAccess regionId => settle (manager.recordAccess maxRegions regionId)
  | .updateCutValue regionId cutValue =>
    settle (manager.updateCutValue maxRegions regionId cutValue)
  | .promote regionId target => moved (manager.promote maxRegions regionId target)
  | .demote regionId target => moved (manager.demote maxRegions regionId target)
  | .decayRecency decayAmount => (.ok none, manager.decayRecency decayAmount)
  | .advanceEpoch => (.ok none, manager.advanceEpoch)
where
  settle : Except RvmError TierManager → Except RvmError (Option Tier) × TierManager
    | .ok next => (.ok none, next)
    | .error e => (.error e, manager)
  moved : Except RvmError (Tier × TierManager) → Except RvmError (Option Tier) × TierManager
    | .ok (oldTier, next) => (.ok (some oldTier), next)
    | .error e => (.error e, manager)

def Step (maxRegions : Nat) (manager : TierManager)
    (label : TierCall × Except RvmError (Option Tier)) (next : TierManager) : Prop :=
  manager.apply maxRegions label.1 = (label.2, next)

end TierManager

end Rvm.Memory
