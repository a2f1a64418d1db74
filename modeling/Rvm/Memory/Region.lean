import Rvm.Foundation.Run
import Rvm.Memory.Tier
import Rvm.Types.Capability

/-!
Owns the region manager of `rvm-memory/src/region.rs`: the region table,
creation with its overlap scan, destruction, transfer and address translation,
as a labelled step relation. End addresses are `u64` sums and wrap as they do in
a release build.
-/

namespace Rvm.Memory

open Foundation List

structure MemoryPermissions where
  read : Bool
  write : Bool
  execute : Bool
deriving DecidableEq, Repr

namespace MemoryPermissions

def readOnly : MemoryPermissions := ⟨true, false, false⟩

def readWrite : MemoryPermissions := ⟨true, true, false⟩

end MemoryPermissions

structure OwnedRegion where
  id : Nat
  owner : PartitionId
  guestBase : Nat
  hostBase : Nat
  pageCount : Nat
  tier : Tier
  permissions : MemoryPermissions
  occupied : Bool
deriving DecidableEq, Repr

namespace OwnedRegion

def empty : OwnedRegion := ⟨0, ⟨0⟩, 0, 0, 0, .warm, .readOnly, false⟩

def sizeBytes (region : OwnedRegion) : Nat := region.pageCount * pageSize

def guestEnd (region : OwnedRegion) : Nat := asU64 (region.guestBase + region.sizeBytes)

def hostEnd (region : OwnedRegion) : Nat := asU64 (region.hostBase + region.sizeBytes)

def containsGuest (region : OwnedRegion) (addr : Nat) : Bool :=
  decide (addr ≥ region.guestBase) && decide (addr < region.guestEnd)

end OwnedRegion

structure RegionConfig where
  id : Nat
  owner : PartitionId
  guestBase : Nat
  hostBase : Nat
  pageCount : Nat
  tier : Tier
  permissions : MemoryPermissions
deriving DecidableEq, Repr

def RegionConfig.toRegion (config : RegionConfig) : OwnedRegion :=
  ⟨config.id, config.owner, config.guestBase, config.hostBase, config.pageCount, config.tier,
    config.permissions, true⟩

structure AddressMapping where
  guest : Nat
  host : Nat
  permissions : MemoryPermissions
deriving DecidableEq, Repr

structure RegionManager where
  /-- The region table; only indices below `MAX` are meaningful. -/
  regions : Nat → OwnedRegion
  count : Nat
  nextId : Nat

/-- The interval test of the overlap checks. -/
def overlaps (start stop existingStart existingStop : Nat) : Bool :=
  decide (start < existingStop) && decide (existingStart < stop)

namespace RegionManager

def new : RegionManager := ⟨fun _ => .empty, 0, 1⟩

/-- Whether an occupied entry conflicts with a configuration: in guest space
within one partition, in host space across all. -/
def conflicts (config : RegionConfig) (region : OwnedRegion) : Bool :=
  (decide (region.owner = config.owner) &&
      overlaps config.guestBase (asU64 (config.guestBase + config.pageCount * pageSize))
        region.guestBase region.guestEnd) ||
    overlaps config.hostBase (asU64 (config.hostBase + config.pageCount * pageSize))
      region.hostBase region.hostEnd

/-- The single pass of `create`: stop at a conflict, remember the first free
slot. -/
def scanSlots (config : RegionConfig) (regions : Nat → OwnedRegion) :
    List Nat → Option Nat → Except RvmError (Option Nat)
  | [], firstFreeSlot => .ok firstFreeSlot
  | i :: rest, firstFreeSlot =>
    if !(regions i).occupied then
      scanSlots config regions rest (if firstFreeSlot.isNone then some i else firstFreeSlot)
    else if conflicts config (regions i) then .error .memoryOverlap
    else scanSlots config regions rest firstFreeSlot

def createSlot (MAX : Nat) (manager : RegionManager) (config : RegionConfig) :
    Except RvmError Nat :=
  if !isPageAligned config.guestBase then .error .alignmentError
  else if !isPageAligned config.hostBase then .error .alignmentError
  else if config.pageCount = 0 then .error .resourceLimitExceeded
  else if manager.count ≥ MAX then .error .resourceLimitExceeded
  else
    match scanSlots config manager.regions (List.range MAX) none with
    | .error e => .error e
    | .ok none => .error .resourceLimitExceeded
    | .ok (some idx) => .ok idx

def create (MAX : Nat) (manager : RegionManager) (config : RegionConfig) :
    Except RvmError Nat × RegionManager :=
  match manager.createSlot MAX config with
  | .error e => (.error e, manager)
  | .ok idx =>
    (.ok config.id,
      { manager with
        regions := Function.update manager.regions idx config.toRegion
        count := manager.count + 1 })

/-- The manager after a fresh identifier is taken. The counter is a `u64`. -/
def bumpId (manager : RegionManager) : RegionManager :=
  { manager with nextId := asU64 (manager.nextId + 1) }

def createAutoId (MAX : Nat) (manager : RegionManager) (owner : PartitionId)
    (guestBase hostBase pageCount : Nat) (tier : Tier) (permissions : MemoryPermissions) :
    Except RvmError Nat × RegionManager :=
  manager.bumpId.create MAX
    ⟨manager.nextId, owner, guestBase, hostBase, pageCount, tier, permissions⟩

def findSlot (MAX : Nat) (manager : RegionManager) (regionId : Nat) : Option Nat :=
  (List.range MAX).find? fun i =>
    (manager.regions i).occupied && decide ((manager.regions i).id = regionId)

def get (MAX : Nat) (manager : RegionManager) (regionId : Nat) : Option OwnedRegion :=
  (manager.findSlot MAX regionId).map manager.regions

def destroy (MAX : Nat) (manager : RegionManager) (regionId : Nat) :
    Except RvmError OwnedRegion × RegionManager :=
  match manager.findSlot MAX regionId with
  | some idx =>
    (.ok (manager.regions idx),
      { manager with
        regions := Function.update manager.regions idx .empty
        count := manager.count - 1 })
  | none => (.error .partitionNotFound, manager)

/-- Whether the entry at `i` stands in the way of giving entry `idx` to
`newOwner`. -/
def blocksTransfer (manager : RegionManager) (idx : Nat) (newOwner : PartitionId) (i : Nat) : Bool :=
  !(decide (i = idx) || !(manager.regions i).occupied ||
      decide ((manager.regions i).owner ≠ newOwner)) &&
    overlaps (manager.regions idx).guestBase (manager.regions idx).guestEnd
      (manager.regions i).guestBase (manager.regions i).guestEnd

def transfer (MAX : Nat) (manager : RegionManager) (regionId : Nat) (newOwner : PartitionId) :
    Except RvmError Unit × RegionManager :=
  match manager.findSlot MAX regionId with
  | none => (.error .partitionNotFound, manager)
  | some idx =>
    if (List.range MAX).any (manager.blocksTransfer idx newOwner) then (.error .memoryOverlap, manager)
    else
      (.ok (),
        { manager with
          regions := Function.update manager.regions idx
            { manager.regions idx with owner := newOwner } })

def translate (MAX : Nat) (manager : RegionManager) (owner : PartitionId) (guest : Nat) :
    Option AddressMapping :=
  ((List.range MAX).find? fun i =>
    (manager.regions i).occupied && decide ((manager.regions i).owner = owner) &&
      (manager.regions i).containsGuest guest).map fun i =>
    ⟨guest, asU64 ((manager.regions i).hostBase + (guest - (manager.regions i).guestBase)),
      (manager.regions i).permissions⟩

end RegionManager

inductive RegionCall where
  | create (config : RegionConfig)
  | createAutoId (owner : PartitionId) (guestBase hostBase pageCount : Nat) (tier : Tier)
      (permissions : MemoryPermissions)
  | destroy (regionId : Nat)
  | transfer (regionId : Nat) (newOwner : PartitionId)
deriving DecidableEq, Repr

namespace RegionManager

def apply (MAX : Nat) (manager : RegionManager) : RegionCall → RegionManager
  | .create config => (manager.create MAX config).2
  | .createAutoId owner guestBase hostBase pageCount tier permissions =>
    (manager.createAutoId MAX owner guestBase hostBase pageCount tier permissions).2
  | .destroy regionId => (manager.destroy MAX regionId).2
  | .transfer regionId newOwner => (manager.transfer MAX regionId newOwner).2

def Step (MAX : Nat) (manager : RegionManager) (call : RegionCall) (next : RegionManager) : Prop :=
  manager.apply MAX call = next

/-- The configuration a call asks `create` to insert. -/
def requested (manager : RegionManager) : RegionCall → Option RegionConfig
  | .create config => some config
  | .createAutoId owner guestBase hostBase pageCount tier permissions =>
    some ⟨manager.nextId, owner, guestBase, hostBase, pageCount, tier, permissions⟩
  | _ => none

variable {MAX : Nat} {manager : RegionManager}

theorem scanSlots_spec {config : RegionConfig} {regions : Nat → OwnedRegion} :
    ∀ {indices : List Nat} {free found : Option Nat},
      scanSlots config regions indices free = .ok found →
      (∀ i ∈ indices, (regions i).occupied = true → conflicts config (regions i) = false) ∧
        ∀ idx, found = some idx → free = some idx ∨ idx ∈ indices ∧ (regions idx).occupied = false := by
  intro indices
  induction indices with
  | nil =>
    intro free found scanned
    cases scanned
    exact ⟨by simp, fun idx found => Or.inl found⟩
  | cons i rest ih =>
    intro free found scanned
    unfold scanSlots at scanned
    split at scanned
    · next unoccupied =>
        obtain ⟨apart, origin⟩ := ih scanned
        refine ⟨forall_mem_cons.mpr ⟨fun occupied => by simp [occupied] at unoccupied, apart⟩,
          fun idx isFound => ?_⟩
        rcases origin idx isFound with earlier | ⟨later, isFree⟩
        · cases free with
          | none =>
            cases earlier
            exact Or.inr ⟨by simp, by simpa using unoccupied⟩
          | some slot => exact Or.inl earlier
        · exact Or.inr ⟨mem_cons_of_mem _ later, isFree⟩
    · split at scanned
      · cases scanned
      · next noConflict =>
          obtain ⟨apart, origin⟩ := ih scanned
          refine ⟨forall_mem_cons.mpr ⟨fun _ => by simpa using noConflict, apart⟩,
            fun idx isFound => ?_⟩
          rcases origin idx isFound with earlier | ⟨later, isFree⟩
          · exact Or.inl earlier
          · exact Or.inr ⟨mem_cons_of_mem _ later, isFree⟩

theorem createSlot_spec {config : RegionConfig} {idx : Nat}
    (cleared : manager.createSlot MAX config = .ok idx) :
    idx < MAX ∧ (manager.regions idx).occupied = false ∧ config.pageCount ≠ 0 ∧
      ∀ i, i < MAX → (manager.regions i).occupied = true →
        conflicts config (manager.regions i) = false := by
  unfold createSlot at cleared
  split at cleared
  · cases cleared
  · split at cleared
    · cases cleared
    · split at cleared
      · cases cleared
      · next positive =>
          split at cleared
          · cases cleared
          · split at cleared
            · cases cleared
            · cases cleared
            · next slot scanned =>
                cases cleared
                obtain ⟨apart, origin⟩ := scanSlots_spec scanned
                rcases origin idx rfl with absent | ⟨member, isFree⟩
                · cases absent
                · exact ⟨mem_range.mp member, isFree, positive,
                    fun i below => apart i (mem_range.mpr below)⟩

theorem findSlot_spec {regionId idx : Nat} (found : manager.findSlot MAX regionId = some idx) :
    idx < MAX ∧ (manager.regions idx).occupied = true := by
  have member := mem_of_find?_eq_some found
  have matching := List.find?_some found
  simp only [Bool.and_eq_true] at matching
  exact ⟨mem_range.mp member, matching.1⟩

end RegionManager

end Rvm.Memory
