import Rvm.Foundation.Run
import Rvm.Foundation.Slots
import Rvm.Partition.Device

/-!
Owns that device leases are exclusive: the invariant that ties the device table to the lease
table. Device identifiers are cast to `u32`; with more than `2^32` slots two devices share
one.
-/

namespace Rvm.Partition

open Foundation Function List Option

namespace DeviceLeaseManager

variable {maxDevices maxLeases : Nat} {manager next : DeviceLeaseManager}

/-! ### The invariant -/

/-- Each lease names one unavailable device, each unavailable device one lease;
identifiers are unique and the counts count. -/
structure Exclusive (maxDevices maxLeases : Nat) (manager : DeviceLeaseManager) : Prop where
  devicesInside : ∀ i device, manager.devices i = some device → i < maxDevices
  leasesInside : ∀ i lease, manager.leases i = some lease → i < maxLeases
  numbered : ∀ i device, manager.devices i = some device → device.id < manager.deviceCount
  distinct : ∀ i j left right, manager.devices i = some left → manager.devices j = some right →
    left.id = right.id → i = j
  single : ∀ i j left right, manager.leases i = some left → manager.leases j = some right →
    left.deviceId = right.deviceId → i = j
  leased : ∀ i lease, manager.leases i = some lease →
    ∃ j device, manager.devices j = some device ∧ device.id = lease.deviceId ∧
      device.available = false
  holder : ∀ i device, manager.devices i = some device → device.available = false →
    ∃ j lease, manager.leases j = some lease ∧ lease.deviceId = device.id
  deviceCount : manager.deviceCount = occupied maxDevices fun i => (manager.devices i).isSome
  leaseCount : manager.leaseCount = occupied maxLeases fun i => (manager.leases i).isSome

variable {i : Nat} {device : DeviceInfo}

theorem Exclusive.unavailable_iff (exclusive : Exclusive maxDevices maxLeases manager)
    (held : manager.devices i = some device) :
    device.available = false ↔
      ∃! j, ∃ lease, manager.leases j = some lease ∧ lease.deviceId = device.id := by
  constructor
  · intro unavailable
    obtain ⟨j, lease, leaseHeld, names⟩ := exclusive.holder i device held unavailable
    refine ⟨j, ⟨lease, leaseHeld, names⟩, ?_⟩
    rintro k ⟨other, otherHeld, alsoNames⟩
    exact exclusive.single k j other lease otherHeld leaseHeld (alsoNames.trans names.symm)
  · rintro ⟨j, ⟨lease, leaseHeld, names⟩, _⟩
    obtain ⟨k, leasedDevice, leasedHeld, sameId, unavailable⟩ := exclusive.leased j lease leaseHeld
    obtain rfl := exclusive.distinct k i leasedDevice device leasedHeld held (sameId.trans names)
    rw [held] at leasedHeld
    rwa [some.inj leasedHeld]

/-! ### Lookup -/

theorem findDeviceIndex_some {deviceId : Nat}
    (found : manager.findDeviceIndex maxDevices deviceId = some i) :
    ∃ device, manager.devices i = some device ∧ device.id = deviceId := by
  have present : ((manager.devices i).filter fun device => device.id = deviceId).isSome = true := by
    have isSome := List.find?_some found
    exact isSome
  obtain ⟨device, heldIn⟩ := isSome_iff_exists.mp present
  obtain ⟨held, sameId⟩ := filter_eq_some_iff.mp heldIn
  exact ⟨device, held, by simpa using sameId⟩

/-- The part of the invariant that finding a device needs. -/
structure Findable (maxDevices : Nat) (manager : DeviceLeaseManager) : Prop where
  inside : ∀ i device, manager.devices i = some device → i < maxDevices
  distinct : ∀ i j left right, manager.devices i = some left → manager.devices j = some right →
    left.id = right.id → i = j

theorem Exclusive.findable (exclusive : Exclusive maxDevices maxLeases manager) :
    Findable maxDevices manager := ⟨exclusive.devicesInside, exclusive.distinct⟩

/-- The devices are those before, up to their marks. -/
def SameIds (manager next : DeviceLeaseManager) : Prop :=
  ∀ i, (next.devices i).map DeviceInfo.id = (manager.devices i).map DeviceInfo.id

theorem SameIds.before (same : SameIds manager next) (held : next.devices i = some device) :
    ∃ earlier, manager.devices i = some earlier ∧ earlier.id = device.id := by
  have ids := same i
  rw [held] at ids
  exact map_eq_some_iff.mp ids.symm

theorem SameIds.findable (same : SameIds manager next) (findable : Findable maxDevices manager) :
    Findable maxDevices next where
  inside i device held := by
    obtain ⟨earlier, before, _⟩ := same.before held
    exact findable.inside i earlier before
  distinct i j left right leftHeld rightHeld sameId := by
    obtain ⟨leftEarlier, leftBefore, leftId⟩ := same.before leftHeld
    obtain ⟨rightEarlier, rightBefore, rightId⟩ := same.before rightHeld
    exact findable.distinct i j leftEarlier rightEarlier leftBefore rightBefore
      (leftId.trans (sameId.trans rightId.symm))

theorem SameIds.numbered (same : SameIds manager next)
    (exclusive : Exclusive maxDevices maxLeases manager) (held : next.devices i = some device) :
    device.id < manager.deviceCount := by
  obtain ⟨earlier, before, sameId⟩ := same.before held
  exact sameId ▸ exclusive.numbered i earlier before

theorem SameIds.occupied_eq (same : SameIds manager next) :
    (occupied maxDevices fun i => (next.devices i).isSome) =
      occupied maxDevices fun i => (manager.devices i).isSome :=
  occupied_congr fun i _ => by
    rw [← isSome_map (f := DeviceInfo.id), same, isSome_map]

theorem findDeviceIndex_none {deviceId : Nat} (findable : Findable maxDevices manager)
    (missing : manager.findDeviceIndex maxDevices deviceId = none)
    (held : manager.devices i = some device) : device.id ≠ deviceId := by
  have notHere := List.find?_eq_none.mp missing i
    (mem_range.mpr (findable.inside i device held))
  simpa [held] using notHere

/-! ### Registering -/

theorem Exclusive.register (exclusive : Exclusive maxDevices maxLeases manager)
    (narrow : maxDevices ≤ 4294967296) {info : DeviceInfo} {id : Nat}
    (registered : manager.registerDevice maxDevices info = .ok (id, next)) :
    Exclusive maxDevices maxLeases next := by
  unfold registerDevice at registered
  split at registered
  · cases registered
  · rename_i room
    split at registered
    · rename_i i found
      cases registered
      have below := mem_range.mp (mem_of_find?_eq_some found)
      have free : manager.devices i = none := by simpa using List.find?_some found
      have idEq : asU32 manager.deviceCount = manager.deviceCount := Nat.mod_eq_of_lt (by omega)
      have cases : ∀ j device, update manager.devices i
          (some { info with id := asU32 manager.deviceCount, available := true }) j = some device →
          j = i ∧ device.id = manager.deviceCount ∧ device.available = true ∨
            j ≠ i ∧ manager.devices j = some device := by
        intro j device held
        rcases filled_cases held with ⟨here, rfl⟩ | earlier
        · exact .inl ⟨here, idEq, rfl⟩
        · exact .inr earlier
      refine ⟨fun j device held => ?_, exclusive.leasesInside, fun j device held => ?_,
        fun j k left right leftHeld rightHeld sameId => ?_, exclusive.single,
        fun j lease leaseHeld => ?_, fun j device held unavailable => ?_, ?_, exclusive.leaseCount⟩
      · rcases cases j device held with ⟨rfl, _⟩ | ⟨_, before⟩
        · exact below
        · exact exclusive.devicesInside j device before
      · rcases cases j device held with ⟨_, isNew, _⟩ | ⟨_, before⟩
        · exact isNew ▸ Nat.lt_succ_self _
        · exact Nat.lt_succ_of_lt (exclusive.numbered j device before)
      · rcases cases j left leftHeld with ⟨atSlot, isNew, _⟩ | ⟨_, before⟩
        · rcases cases k right rightHeld with ⟨alsoAtSlot, _⟩ | ⟨_, otherBefore⟩
          · exact atSlot.trans alsoAtSlot.symm
          · have numbered := exclusive.numbered k right otherBefore
            omega
        · rcases cases k right rightHeld with ⟨_, isNew, _⟩ | ⟨_, otherBefore⟩
          · have numbered := exclusive.numbered j left before
            omega
          · exact exclusive.distinct j k left right before otherBefore sameId
      · obtain ⟨k, device, held, named⟩ := exclusive.leased j lease leaseHeld
        have apart : k ≠ i := fun same => by
          rw [same, free] at held
          cases held
        exact ⟨k, device, (update_of_ne apart _ _).trans held, named⟩
      · rcases cases j device held with ⟨_, _, available⟩ | ⟨_, before⟩
        · rw [available] at unavailable
          cases unavailable
        · exact exclusive.holder j device before unavailable
      · dsimp only
        rw [exclusive.deviceCount, occupied_filled below free]
    · cases registered

/-! ### Granting -/

theorem Exclusive.grantLease_cases (exclusive : Exclusive maxDevices maxLeases manager)
    (deviceId : Nat) (partition : PartitionId) (durationEpochs currentEpoch capHash : Nat) :
    (∃ e, manager.grantLease maxDevices maxLeases deviceId partition durationEpochs currentEpoch
        capHash = (.error e, manager)) ∨
      ∃ i device j lease, manager.devices i = some device ∧ device.id = deviceId ∧
        device.available = true ∧ manager.leaseCount < maxLeases ∧ j < maxLeases ∧
        manager.leases j = none ∧ lease.deviceId = deviceId ∧ lease.partitionId = partition ∧
        manager.grantLease maxDevices maxLeases deviceId partition durationEpochs currentEpoch
          capHash = (.ok manager.nextLeaseId,
            { manager.setAvailable i false with
              nextLeaseId := asU64 (manager.nextLeaseId + 1)
              leases := update manager.leases j (some lease)
              leaseCount := manager.leaseCount + 1 }) := by
  unfold grantLease
  cases found : manager.findDeviceIndex maxDevices deviceId with
  | none => exact .inl ⟨_, rfl⟩
  | some i =>
    obtain ⟨device, held, sameId⟩ := findDeviceIndex_some found
    dsimp only
    rw [held]
    dsimp only
    split
    · exact .inl ⟨_, rfl⟩
    · rename_i available
      split
      · exact .inl ⟨_, rfl⟩
      · rename_i room
        unfold storeLease
        dsimp only
        cases free : (List.range maxLeases).find? fun j => (manager.leases j).isNone with
        | none =>
          obtain ⟨j, below, unused⟩ := exists_free (exclusive.leaseCount ▸ Nat.not_le.mp room)
          have missing := List.find?_eq_none.mp free j (mem_range.mpr below)
          simp only [isSome_eq_false_iff] at unused
          exact absurd unused missing
        | some j =>
          exact .inr ⟨i, device, j, _, held, sameId, by simpa using available,
            Nat.not_le.mp room, mem_range.mp (mem_of_find?_eq_some free),
            by simpa using List.find?_some free, rfl, rfl, rfl⟩

theorem Exclusive.store (exclusive : Exclusive maxDevices maxLeases manager) {j : Nat}
    {lease : ActiveLease} (nextLeaseId : Nat) (held : manager.devices i = some device)
    (names : device.id = lease.deviceId) (available : device.available = true)
    (below : j < maxLeases) (free : manager.leases j = none) :
    Exclusive maxDevices maxLeases
      { manager.setAvailable i false with
        nextLeaseId := nextLeaseId
        leases := update manager.leases j (some lease)
        leaseCount := manager.leaseCount + 1 } := by
  have devices : (manager.setAvailable i false).devices =
      update manager.devices i (some { device with available := false }) := by
    rw [setAvailable, held]
    rfl
  have unleased : ∀ k other, manager.leases k = some other → other.deviceId ≠ lease.deviceId := by
    intro k other otherHeld same
    obtain ⟨l, leasedDevice, leasedHeld, sameId, unavailable⟩ := exclusive.leased k other otherHeld
    obtain rfl := exclusive.distinct l i leasedDevice device leasedHeld held
      (sameId.trans (same.trans names.symm))
    rw [some.inj (held.symm.trans leasedHeld), unavailable] at available
    cases available
  have sameIds : SameIds manager (manager.setAvailable i false) := by
    intro k
    rw [devices]
    by_cases here : k = i
    · rw [here, update_self, held]
      rfl
    · rw [update_of_ne here]
  have findable := sameIds.findable exclusive.findable
  refine ⟨findable.inside, fun k other otherHeld => ?_,
    fun k other otherHeld => sameIds.numbered exclusive otherHeld, findable.distinct,
    fun k l left right leftHeld rightHeld same => ?_, fun k other otherHeld => ?_,
    fun k other otherHeld unavailable => ?_, exclusive.deviceCount.trans sameIds.occupied_eq.symm,
    ?_⟩
  · rcases filled_cases otherHeld with ⟨rfl, _⟩ | ⟨_, earlier⟩
    · exact below
    · exact exclusive.leasesInside k other earlier
  · rcases filled_cases leftHeld with ⟨rfl, rfl⟩ | ⟨_, leftBefore⟩
    · rcases filled_cases rightHeld with ⟨rfl, _⟩ | ⟨_, rightBefore⟩
      · rfl
      · exact absurd same.symm (unleased l right rightBefore)
    · rcases filled_cases rightHeld with ⟨_, rfl⟩ | ⟨_, rightBefore⟩
      · exact absurd same (unleased k left leftBefore)
      · exact exclusive.single k l left right leftBefore rightBefore same
  · rcases filled_cases otherHeld with ⟨rfl, rfl⟩ | ⟨_, earlier⟩
    · exact ⟨i, { device with available := false },
        by rw [devices, update_self], names, rfl⟩
    · obtain ⟨l, leasedDevice, leasedHeld, sameId, unavailable⟩ := exclusive.leased k other earlier
      have apart : l ≠ i := by
        rintro rfl
        rw [some.inj (held.symm.trans leasedHeld), unavailable] at available
        cases available
      exact ⟨l, leasedDevice, by rw [devices, update_of_ne apart]; exact leasedHeld,
        sameId, unavailable⟩
  · rw [devices] at otherHeld
    rcases filled_cases otherHeld with ⟨rfl, rfl⟩ | ⟨_, earlier⟩
    · exact ⟨j, lease, update_self _ _ _, names.symm⟩
    · obtain ⟨l, holderLease, holderHeld, sameId⟩ := exclusive.holder k other earlier unavailable
      have apart : l ≠ j := fun same => by
        rw [same, free] at holderHeld
        cases holderHeld
      exact ⟨l, holderLease, (update_of_ne apart _ _).trans holderHeld, sameId⟩
  · dsimp only
    rw [exclusive.leaseCount, occupied_filled below free]

/-! ### Dropping leases -/

def Freed (gone : Nat → Prop) (manager : DeviceLeaseManager) (deviceId : Nat) : Prop :=
  ∃ j lease, gone j ∧ manager.leases j = some lease ∧ lease.deviceId = deviceId

structure Dropped (gone : Nat → Prop) (maxLeases : Nat) (manager next : DeviceLeaseManager) :
    Prop where
  leases : ∀ j, ¬gone j → next.leases j = manager.leases j
  emptied : ∀ j, gone j → next.leases j = none
  freed : ∀ i device, manager.devices i = some device → Freed gone manager device.id →
    next.devices i = some { device with available := true }
  kept : ∀ i device, manager.devices i = some device → ¬Freed gone manager device.id →
    next.devices i = some device
  absent : ∀ i, manager.devices i = none → next.devices i = none
  deviceCount : next.deviceCount = manager.deviceCount
  leaseCount : next.leaseCount = occupied maxLeases fun j => (next.leases j).isSome

theorem Exclusive.dropped {gone : Nat → Prop} (exclusive : Exclusive maxDevices maxLeases manager)
    (dropped : Dropped gone maxLeases manager next) : Exclusive maxDevices maxLeases next := by
  have leaseBefore : ∀ j lease, next.leases j = some lease →
      ¬gone j ∧ manager.leases j = some lease := by
    intro j lease held
    have stays : ¬gone j := fun isGone => by
      rw [dropped.emptied j isGone] at held
      cases held
    rw [dropped.leases j stays] at held
    exact ⟨stays, held⟩
  have marked : ∀ i, (manager.devices i = none ∧ next.devices i = none) ∨
      ∃ device, manager.devices i = some device ∧
        (next.devices i = some { device with available := true } ∨
          ¬Freed gone manager device.id ∧ next.devices i = some device) := by
    intro i
    cases before : manager.devices i with
    | none => exact .inl ⟨rfl, dropped.absent i before⟩
    | some device =>
      by_cases isFreed : Freed gone manager device.id
      · exact .inr ⟨device, rfl, .inl (dropped.freed i device before isFreed)⟩
      · exact .inr ⟨device, rfl, .inr ⟨isFreed, dropped.kept i device before isFreed⟩⟩
  have sameIds : SameIds manager next := by
    intro i
    rcases marked i with ⟨before, after⟩ | ⟨device, before, after | ⟨_, after⟩⟩
    · rw [before, after]
    · rw [before, after]
      rfl
    · rw [before, after]
  have findable := sameIds.findable exclusive.findable
  refine ⟨findable.inside, fun j lease held => ?_, fun i device held => ?_, findable.distinct,
    fun i j left right leftHeld rightHeld same => ?_, fun j lease held => ?_,
    fun i device held unavailable => ?_, ?_, dropped.leaseCount⟩
  · exact exclusive.leasesInside j lease (leaseBefore j lease held).2
  · exact dropped.deviceCount ▸ sameIds.numbered exclusive held
  · exact exclusive.single i j left right (leaseBefore i left leftHeld).2
      (leaseBefore j right rightHeld).2 same
  · obtain ⟨stays, before⟩ := leaseBefore j lease held
    obtain ⟨i, device, deviceHeld, names, unavailable⟩ := exclusive.leased j lease before
    have notFreed : ¬Freed gone manager device.id := by
      rintro ⟨k, other, isGone, otherHeld, alsoNames⟩
      obtain rfl := exclusive.single k j other lease otherHeld before (alsoNames.trans names)
      exact stays isGone
    exact ⟨i, device, dropped.kept i device deviceHeld notFreed, names, unavailable⟩
  · rcases marked i with ⟨_, after⟩ | ⟨earlier, before, after | ⟨notFreed, after⟩⟩
    all_goals
      rw [after] at held
      cases held
    · cases unavailable
    · obtain ⟨j, lease, leaseHeld, names⟩ := exclusive.holder i device before unavailable
      have stays : ¬gone j := fun isGone => notFreed ⟨j, lease, isGone, leaseHeld, names⟩
      exact ⟨j, lease, (dropped.leases j stays).trans leaseHeld, names⟩
  · exact dropped.deviceCount.trans (exclusive.deviceCount.trans sameIds.occupied_eq.symm)

def freeing (ids : List Nat) (device : DeviceInfo) : DeviceInfo :=
  if device.id ∈ ids then { device with available := true } else device

@[simp] theorem freeing_id (ids : List Nat) (device : DeviceInfo) :
    (freeing ids device).id = device.id := by
  unfold freeing
  split <;> rfl

theorem releaseDevice_devices (findable : Findable maxDevices manager) (deviceId i : Nat) :
    (manager.releaseDevice maxDevices deviceId).devices i =
      (manager.devices i).map (freeing [deviceId]) := by
  have others : ∀ device : DeviceInfo, device.id ≠ deviceId → freeing [deviceId] device = device :=
    fun device apart => if_neg (by simpa using apart)
  unfold releaseDevice
  cases found : manager.findDeviceIndex maxDevices deviceId with
  | none =>
    dsimp only
    cases held : manager.devices i with
    | none => rfl
    | some device =>
      rw [map_some, others device (findDeviceIndex_none findable found held)]
  | some j =>
    obtain ⟨named, namedHeld, rfl⟩ := findDeviceIndex_some found
    dsimp only [setAvailable]
    by_cases here : i = j
    · rw [here, update_self, namedHeld, map_some, map_some, freeing,
        if_pos mem_cons_self]
    · rw [update_of_ne here]
      cases held : manager.devices i with
      | none => rfl
      | some device =>
        have apart : device.id ≠ named.id := fun same =>
          here (findable.distinct i j device named held namedHeld same)
        rw [map_some, others device apart]

theorem releaseDevice_frame (deviceId : Nat) :
    (manager.releaseDevice maxDevices deviceId).leases = manager.leases ∧
      (manager.releaseDevice maxDevices deviceId).deviceCount = manager.deviceCount ∧
      (manager.releaseDevice maxDevices deviceId).leaseCount = manager.leaseCount := by
  unfold releaseDevice
  cases manager.findDeviceIndex maxDevices deviceId with
  | none => exact ⟨rfl, rfl, rfl⟩
  | some i => exact ⟨rfl, rfl, rfl⟩

theorem Findable.releaseDevice (findable : Findable maxDevices manager) (deviceId : Nat) :
    Findable maxDevices (manager.releaseDevice maxDevices deviceId) := by
  have sameIds : SameIds manager (manager.releaseDevice maxDevices deviceId) := by
    intro i
    rw [releaseDevice_devices findable, Option.map_map]
    exact congrArg (fun mark => (manager.devices i).map mark) (funext (freeing_id [deviceId]))
  exact sameIds.findable findable

theorem releaseDevices_spec (ids : List Nat) (findable : Findable maxDevices manager) :
    (∀ i, (ids.foldl (releaseDevice maxDevices) manager).devices i =
        (manager.devices i).map (freeing ids)) ∧
      (ids.foldl (releaseDevice maxDevices) manager).leases = manager.leases ∧
      (ids.foldl (releaseDevice maxDevices) manager).deviceCount = manager.deviceCount ∧
      (ids.foldl (releaseDevice maxDevices) manager).leaseCount = manager.leaseCount := by
  induction ids generalizing manager with
  | nil =>
    refine ⟨fun i => ?_, rfl, rfl, rfl⟩
    have same : freeing [] = id := funext fun device => if_neg not_mem_nil
    rw [same, Option.map_id, foldl_nil, id]
  | cons deviceId rest ih =>
    obtain ⟨devices, leases, deviceCount, leaseCount⟩ :=
      ih (findable.releaseDevice deviceId)
    obtain ⟨sameLeases, sameDeviceCount, sameLeaseCount⟩ :=
      @releaseDevice_frame maxDevices manager deviceId
    refine ⟨fun i => ?_, leases.trans sameLeases, deviceCount.trans sameDeviceCount,
      leaseCount.trans sameLeaseCount⟩
    rw [foldl_cons, devices, releaseDevice_devices findable, Option.map_map]
    congr 1
    funext device
    by_cases first : device.id = deviceId <;> by_cases later : device.id ∈ rest <;>
      simp [freeing, first, later]

theorem dropped_of_release {gone : Nat → Prop} {emptied : DeviceLeaseManager} {ids : List Nat}
    (findable : Findable maxDevices manager) (devices : emptied.devices = manager.devices)
    (deviceCount : emptied.deviceCount = manager.deviceCount)
    (stays : ∀ j, ¬gone j → emptied.leases j = manager.leases j)
    (empties : ∀ j, gone j → emptied.leases j = none)
    (leaseCount : emptied.leaseCount = occupied maxLeases fun j => (emptied.leases j).isSome)
    (named : ∀ deviceId, deviceId ∈ ids ↔ Freed gone manager deviceId) :
    Dropped gone maxLeases manager (ids.foldl (releaseDevice maxDevices) emptied) := by
  have emptiedFindable : Findable maxDevices emptied :=
    ⟨devices ▸ findable.inside, devices ▸ findable.distinct⟩
  obtain ⟨after, sameLeases, sameDeviceCount, sameLeaseCount⟩ :=
    releaseDevices_spec ids emptiedFindable
  refine ⟨fun j notGone => ?_, fun j isGone => ?_, fun i device held isFreed => ?_,
    fun i device held notFreed => ?_, fun i free => ?_, sameDeviceCount.trans deviceCount, ?_⟩
  · rw [sameLeases, stays j notGone]
  · rw [sameLeases, empties j isGone]
  · rw [after, devices, held, map_some, freeing, if_pos ((named device.id).mpr isFreed)]
  · rw [after, devices, held, map_some, freeing,
      if_neg fun member => notFreed ((named device.id).mp member)]
  · rw [after, devices, free]
    rfl
  · rw [sameLeaseCount, sameLeases, leaseCount]

theorem dropLease_leaseCount {lease : ActiveLease} (below : i < maxLeases)
    (held : manager.leases i = some lease)
    (counted : manager.leaseCount = occupied maxLeases fun j => (manager.leases j).isSome) :
    (manager.dropLease i).leaseCount =
      occupied maxLeases fun j => ((manager.dropLease i).leases j).isSome := by
  have cleared : occupied maxLeases (fun j => ((manager.dropLease i).leases j).isSome) + 1 =
      occupied maxLeases fun j => (manager.leases j).isSome := occupied_emptied below held
  have counts : (manager.dropLease i).leaseCount = manager.leaseCount - 1 := rfl
  omega

theorem Exclusive.revokeLease_cases (exclusive : Exclusive maxDevices maxLeases manager)
    (leaseId : Nat) :
    (∃ e, manager.revokeLease maxDevices maxLeases leaseId = .error e) ∨
      ∃ i lease next, manager.leases i = some lease ∧ lease.leaseId = leaseId ∧
        manager.revokeLease maxDevices maxLeases leaseId = .ok next ∧
        Dropped (fun j => j = i) maxLeases manager next := by
  unfold revokeLease
  dsimp only
  cases found : (List.range maxLeases).findSome? fun i =>
      (manager.leaseIn leaseId i).map fun lease => (i, lease) with
  | none => exact .inl ⟨_, rfl⟩
  | some slot =>
    obtain ⟨j, _, mapped⟩ := exists_of_findSome?_eq_some found
    obtain ⟨lease, leaseIn, rfl⟩ := map_eq_some_iff.mp mapped
    obtain ⟨held, sameId⟩ := filter_eq_some_iff.mp leaseIn
    refine .inr ⟨j, lease, _, held, by simpa using sameId, rfl, ?_⟩
    have dropped := @dropped_of_release maxDevices maxLeases manager (fun k => k = j)
      (manager.dropLease j) [lease.deviceId] exclusive.findable rfl rfl
    apply dropped
    · intro k apart
      exact update_of_ne apart _ _
    · rintro k rfl
      exact update_self _ _ _
    · exact dropLease_leaseCount (exclusive.leasesInside j lease held) held exclusive.leaseCount
    · intro deviceId
      rw [mem_singleton]
      constructor
      · rintro rfl
        exact ⟨j, lease, rfl, held, rfl⟩
      · rintro ⟨k, other, rfl, otherHeld, rfl⟩
        rw [some.inj (held.symm.trans otherHeld)]

def Expired (manager : DeviceLeaseManager) (currentEpoch j : Nat) : Prop :=
  ∃ lease, manager.leases j = some lease ∧ lease.expiryEpoch ≤ currentEpoch

/-- What the sweep over the first slots has done. -/
structure Swept (maxLeases currentEpoch : Nat) (manager : DeviceLeaseManager) (swept : Nat)
    (state : DeviceLeaseManager × List Nat) : Prop where
  devices : state.1.devices = manager.devices
  deviceCount : state.1.deviceCount = manager.deviceCount
  stays : ∀ j, ¬(j < swept ∧ manager.Expired currentEpoch j) →
    state.1.leases j = manager.leases j
  empties : ∀ j, j < swept ∧ manager.Expired currentEpoch j → state.1.leases j = none
  leaseCount : state.1.leaseCount = occupied maxLeases fun j => (state.1.leases j).isSome
  named : ∀ deviceId, deviceId ∈ state.2 ↔
    Freed (fun j => j < swept ∧ manager.Expired currentEpoch j) manager deviceId

theorem Swept.visit {currentEpoch : Nat} {state : DeviceLeaseManager × List Nat}
    (swept : Swept maxLeases currentEpoch manager i state) (below : i < maxLeases) :
    Swept maxLeases currentEpoch manager (i + 1) (expireSlot currentEpoch state i) := by
  have here : state.1.leases i = manager.leases i :=
    swept.stays i fun earlier => absurd earlier.1 (lt_irrefl i)
  have further : ∀ j, j ≠ i → (j < i + 1 ∧ manager.Expired currentEpoch j ↔
      j < i ∧ manager.Expired currentEpoch j) := by
    intro j apart
    constructor
    · exact fun ⟨near, expired⟩ => ⟨by omega, expired⟩
    · exact fun ⟨near, expired⟩ => ⟨by omega, expired⟩
  unfold expireSlot
  cases found : state.1.expiredIn currentEpoch i with
  | none =>
    have notExpired : ¬manager.Expired currentEpoch i := by
      rintro ⟨lease, held, late⟩
      rw [expiredIn, here, held, filter_some_pos (by simpa using late)] at found
      cases found
    have same : ∀ j, (j < i + 1 ∧ manager.Expired currentEpoch j ↔
        j < i ∧ manager.Expired currentEpoch j) := by
      intro j
      by_cases atSlot : j = i
      · subst atSlot
        exact iff_of_false (fun both => notExpired both.2) fun both => notExpired both.2
      · exact further j atSlot
    refine ⟨swept.devices, swept.deviceCount, fun j outside => ?_, fun j inside => ?_,
      swept.leaseCount, fun deviceId => ?_⟩
    · exact swept.stays j fun earlier => outside ((same j).mpr earlier)
    · exact swept.empties j ((same j).mp inside)
    · rw [swept.named]
      simp only [Freed, same]
  | some lease =>
    obtain ⟨held, late⟩ := filter_eq_some_iff.mp found
    have heldBefore : manager.leases i = some lease := here ▸ held
    have expired : manager.Expired currentEpoch i := ⟨lease, heldBefore, by simpa using late⟩
    refine ⟨swept.devices, swept.deviceCount, fun j outside => ?_, fun j inside => ?_,
      dropLease_leaseCount below held swept.leaseCount, fun deviceId => ?_⟩
    · have apart : j ≠ i := by
        rintro rfl
        exact outside ⟨Nat.lt_succ_self j, expired⟩
      refine (update_of_ne apart _ _).trans (swept.stays j fun earlier => ?_)
      exact outside ((further j apart).mpr earlier)
    · by_cases atSlot : j = i
      · rw [atSlot]
        exact update_self _ _ _
      · exact (update_of_ne atSlot _ _).trans
          (swept.empties j ((further j atSlot).mp inside))
    · rw [mem_append, mem_singleton, swept.named]
      constructor
      · rintro (⟨j, other, earlier, otherHeld, names⟩ | rfl)
        · exact ⟨j, other, ⟨Nat.lt_succ_of_lt earlier.1, earlier.2⟩, otherHeld, names⟩
        · exact ⟨i, lease, ⟨Nat.lt_succ_self i, expired⟩, heldBefore, rfl⟩
      · rintro ⟨j, other, inside, otherHeld, names⟩
        by_cases atSlot : j = i
        · subst atSlot
          rw [heldBefore] at otherHeld
          exact .inr (names ▸ congrArg ActiveLease.deviceId (some.inj otherHeld).symm)
        · exact .inl ⟨j, other, (further j atSlot).mp inside, otherHeld, names⟩

theorem Exclusive.expireLeases (exclusive : Exclusive maxDevices maxLeases manager)
    (currentEpoch : Nat) :
    Dropped (manager.Expired currentEpoch) maxLeases manager
      (manager.expireLeases maxDevices maxLeases currentEpoch).2 := by
  have initial : Swept maxLeases currentEpoch manager 0 (manager, []) := by
    refine ⟨rfl, rfl, fun _ _ => rfl, fun _ inside => absurd inside.1 (Nat.not_lt_zero _),
      exclusive.leaseCount, fun deviceId => ?_⟩
    refine iff_of_false not_mem_nil ?_
    rintro ⟨_, _, ⟨below, _⟩, _⟩
    exact Nat.not_lt_zero _ below
  have swept := sweep_keeps initial fun i state below swept => swept.visit below
  have all : ∀ j, (j < maxLeases ∧ manager.Expired currentEpoch j ↔
      manager.Expired currentEpoch j) := by
    intro j
    refine ⟨And.right, fun expired => ⟨?_, expired⟩⟩
    obtain ⟨lease, held, _⟩ := expired
    exact exclusive.leasesInside j lease held
  refine dropped_of_release exclusive.findable swept.devices swept.deviceCount
    (fun j notGone => swept.stays j fun earlier => notGone earlier.2)
    (fun j isGone => swept.empties j ((all j).mpr isGone)) swept.leaseCount fun deviceId => ?_
  rw [swept.named]
  simp only [Freed, all]

/-! ### Calls and runs -/

theorem Exclusive.apply (exclusive : Exclusive maxDevices maxLeases manager)
    (narrow : maxDevices ≤ 4294967296) (call : DeviceCall) :
    Exclusive maxDevices maxLeases (manager.apply maxDevices maxLeases call).2 ∧
      ∀ e, (manager.apply maxDevices maxLeases call).1 = .error e →
        (manager.apply maxDevices maxLeases call).2 = manager := by
  cases call with
  | registerDevice info =>
    dsimp only [DeviceLeaseManager.apply]
    cases registered : manager.registerDevice maxDevices info with
    | error e => exact ⟨exclusive, fun _ _ => rfl⟩
    | ok result =>
      exact ⟨exclusive.register narrow registered, fun _ failed => by cases failed⟩
  | grantLease deviceId partition durationEpochs currentEpoch capHash =>
    dsimp only [DeviceLeaseManager.apply]
    rcases exclusive.grantLease_cases deviceId partition durationEpochs currentEpoch capHash with
      ⟨e, refused⟩ |
      ⟨i, device, j, lease, held, sameId, available, _, below, free, leased, _, granted⟩
    · rw [refused]
      exact ⟨exclusive, fun _ _ => rfl⟩
    · rw [granted]
      exact ⟨exclusive.store _ held (sameId.trans leased.symm) available below free,
        fun _ failed => by cases failed⟩
  | revokeLease leaseId =>
    dsimp only [DeviceLeaseManager.apply]
    rcases exclusive.revokeLease_cases leaseId with ⟨e, refused⟩ | ⟨i, lease, after, _, _, revoked,
      dropped⟩
    · rw [refused]
      exact ⟨exclusive, fun _ _ => rfl⟩
    · rw [revoked]
      exact ⟨exclusive.dropped dropped, fun _ failed => by cases failed⟩
  | checkLease leaseId currentEpoch | getLeaseHolder deviceId | isDeviceAvailable deviceId =>
    exact ⟨exclusive, fun _ _ => rfl⟩
  | expireLeases currentEpoch =>
    exact ⟨exclusive.dropped (exclusive.expireLeases currentEpoch), fun _ failed => by cases failed⟩

theorem exclusive_new : Exclusive maxDevices maxLeases new where
  devicesInside i device held := by cases held
  leasesInside i lease held := by cases held
  numbered i device held := by cases held
  distinct i j left right held := by cases held
  single i j left right held := by cases held
  leased i lease held := by cases held
  holder i device held := by cases held
  deviceCount := occupied_none.symm
  leaseCount := occupied_none.symm

variable {history : List (DeviceCall × DeviceOutcome)}

theorem exclusive_run (narrow : maxDevices ≤ 4294967296)
    (run : Run (Step maxDevices maxLeases) new history manager) :
    Exclusive maxDevices maxLeases manager := by
  refine run.stateInvariant exclusive_new fun here label next exclusive step => ?_
  have kept := (exclusive.apply narrow label.1).1
  rwa [step] at kept

/-- In every state reached, leases and unavailable devices are in bijection, a failing call
changes nothing and expiry drops exactly the expired leases. -/
theorem exclusiveLeases (narrow : maxDevices ≤ 4294967296)
    (run : Run (Step maxDevices maxLeases) new history manager) :
    (∀ i device, manager.devices i = some device → (device.available = false ↔
        ∃! j, ∃ lease, manager.leases j = some lease ∧ lease.deviceId = device.id)) ∧
      (∀ i j left right, manager.leases i = some left → manager.leases j = some right →
        left.deviceId = right.deviceId → i = j) ∧
      manager.leaseCount = occupied maxLeases (fun j => (manager.leases j).isSome) ∧
      manager.deviceCount = occupied maxDevices (fun i => (manager.devices i).isSome) ∧
      (∀ i j left right, manager.devices i = some left → manager.devices j = some right →
        left.id = right.id → i = j) ∧
      (∀ call e next, Step maxDevices maxLeases manager (call, .error e) next → next = manager) ∧
      ∀ now, Dropped (manager.Expired now) maxLeases manager
        (manager.expireLeases maxDevices maxLeases now).2 := by
  have exclusive := exclusive_run narrow run
  refine ⟨fun i device held => exclusive.unavailable_iff held, exclusive.single,
    exclusive.leaseCount, exclusive.deviceCount, exclusive.distinct, fun call e next step => ?_,
    exclusive.expireLeases⟩
  have unchanged := (exclusive.apply narrow call).2 e
  rw [step] at unchanged
  exact unchanged rfl

def leaseHistory : List (DeviceCall × DeviceOutcome) :=
  [(.registerDevice ⟨0, .network, 4096, 4096, none, false⟩, .ok (.device 0)),
    (.grantLease 0 ⟨7⟩ 5 10 99, .ok (.lease 1)), (.expireLeases 15, .ok (.expired 1))]

theorem exclusiveLeases_sample :
    ∃ manager, Run (Step 2 2) new leaseHistory manager ∧
      manager.leaseCount = occupied 2 fun j => (manager.leases j).isSome := by
  have expired : Run (Step 2 2) new leaseHistory _ := .cons rfl <| .cons rfl <| .single rfl
  exact ⟨_, expired, (exclusiveLeases (by decide) expired).2.2.1⟩

/-! ### More devices than identifiers -/

/-- Exactly the first slots hold devices, numbered in order modulo `2^32`. -/
structure Registered (count : Nat) (manager : DeviceLeaseManager) : Prop where
  deviceCount : manager.deviceCount = count
  filled : ∀ i, i < count → ∃ device, manager.devices i = some device ∧ device.id = asU32 i
  free : ∀ i, count ≤ i → manager.devices i = none

theorem Registered.extend {count : Nat} (registered : Registered count manager)
    (room : count < maxDevices) (info : DeviceInfo) : ∃ outcome next,
      Step maxDevices maxLeases manager (.registerDevice info, outcome) next ∧
        Registered (count + 1) next := by
  have found : (List.range maxDevices).find? (fun i => (manager.devices i).isNone) =
      some count := by
    apply List.find?_range_eq_some.mpr
    refine ⟨?_, mem_range.mpr room, fun i below => ?_⟩
    · rw [registered.free count (le_refl count)]
      rfl
    · obtain ⟨device, held, _⟩ := registered.filled i below
      rw [held]
      rfl
  obtain ⟨next, nextEq, stored⟩ : ∃ next, next = (⟨update manager.devices count
      (some { info with id := asU32 count, available := true }), manager.leases, count + 1,
        manager.leaseCount, manager.nextLeaseId⟩ : DeviceLeaseManager) ∧
      manager.registerDevice maxDevices info = .ok (asU32 count, next) := by
    refine ⟨_, rfl, ?_⟩
    rw [registerDevice, if_neg (by rw [registered.deviceCount]; omega), found]
    dsimp only
    rw [registered.deviceCount]
  have step : Step maxDevices maxLeases manager
      (.registerDevice info, .ok (.device (asU32 count))) next := by
    rw [Step, DeviceLeaseManager.apply, stored]
  subst nextEq
  refine ⟨_, _, step, rfl, fun i below => ?_, fun i above => ?_⟩
  · by_cases last : i = count
    · rw [last]
      exact ⟨_, update_self _ _ _, rfl⟩
    · obtain ⟨device, held, numbered⟩ := registered.filled i (by omega)
      exact ⟨device, (update_of_ne last _ _).trans held, numbered⟩
  · exact (update_of_ne (by omega) _ _).trans (registered.free i (by omega))

theorem exists_registered (count : Nat) (room : count ≤ maxDevices) :
    ∃ history manager, Run (Step maxDevices maxLeases) new history manager ∧
      Registered count manager := by
  induction count with
  | zero => exact ⟨[], new, .nil, rfl, fun _ below => absurd below (Nat.not_lt_zero _),
      fun _ _ => rfl⟩
  | succ count ih =>
    obtain ⟨history, manager, run, registered⟩ := ih (by omega)
    obtain ⟨outcome, next, step, after⟩ :=
      registered.extend room ⟨0, .generic, 0, 0, none, true⟩
    exact ⟨_, next, run.snoc step, after⟩

/-- With `2^32 + 1` slots the first and the last device share an identifier. -/
theorem exclusiveLeases_wide :
    ∃ history manager, Run (Step 4294967297 1) new history manager ∧
      ¬∀ i j left right, manager.devices i = some left → manager.devices j = some right →
        left.id = right.id → i = j := by
  obtain ⟨history, manager, run, registered⟩ :=
    @exists_registered 4294967297 1 4294967297 (le_refl _)
  refine ⟨history, manager, run, fun distinct => ?_⟩
  obtain ⟨first, firstHeld, firstId⟩ := registered.filled 0 (by decide)
  obtain ⟨last, lastHeld, lastId⟩ := registered.filled 4294967296 (by decide)
  have same := distinct 0 4294967296 first last firstHeld lastHeld (by rw [firstId, lastId]; rfl)
  cases same

end DeviceLeaseManager

end Rvm.Partition
