import Mathlib.Data.List.Range
import Rvm.Types.Basic
import Rvm.Types.Capability

/-!
Owns the device lease manager of `rvm-partition/src/device.rs`: registered
devices, active leases, the availability flag that ties them, and the calls as a
labelled step.
-/

namespace Rvm.Partition

/-- Classification of device types. -/
inductive DeviceClass where
  | network | storage | graphics | serial | timer | interruptController | generic
deriving DecidableEq, Repr

structure DeviceInfo where
  id : Nat
  deviceClass : DeviceClass
  mmioBase : Nat
  mmioSize : Nat
  irq : Option Nat
  available : Bool
deriving DecidableEq, Repr

structure ActiveLease where
  leaseId : Nat
  deviceId : Nat
  partitionId : PartitionId
  grantedEpoch : Nat
  expiryEpoch : Nat
  capabilityHash : Nat
deriving DecidableEq, Repr

structure DeviceLeaseManager where
  devices : Nat → Option DeviceInfo
  leases : Nat → Option ActiveLease
  deviceCount : Nat
  leaseCount : Nat
  nextLeaseId : Nat

namespace DeviceLeaseManager

def new : DeviceLeaseManager := ⟨fun _ => none, fun _ => none, 0, 0, 1⟩

def registerDevice (maxDevices : Nat) (manager : DeviceLeaseManager) (info : DeviceInfo) :
    Except RvmError (Nat × DeviceLeaseManager) :=
  if manager.deviceCount ≥ maxDevices then .error .resourceLimitExceeded
  else
    match (List.range maxDevices).find? fun i => (manager.devices i).isNone with
    | some i =>
      let id := asU32 manager.deviceCount
      .ok (id,
        { manager with
          devices :=
            Function.update manager.devices i (some { info with id := id, available := true })
          deviceCount := manager.deviceCount + 1 })
    | none => .error .internalError

def findDeviceIndex (maxDevices : Nat) (manager : DeviceLeaseManager) (deviceId : Nat) :
    Option Nat :=
  (List.range maxDevices).find? fun i =>
    ((manager.devices i).filter fun device => device.id = deviceId).isSome

def setAvailable (manager : DeviceLeaseManager) (i : Nat) (available : Bool) :
    DeviceLeaseManager :=
  { manager with
    devices := Function.update manager.devices i
      ((manager.devices i).map fun device => { device with available := available }) }

/-- Take a lease identifier, mark the device and store the lease; with no free
slot the identifier and the mark are left behind. -/
def storeLease (maxLeases : Nat) (manager : DeviceLeaseManager) (deviceIdx : Nat)
    (lease : ActiveLease) : Except RvmError Nat × DeviceLeaseManager :=
  let marked := { manager.setAvailable deviceIdx false with
    nextLeaseId := asU64 (manager.nextLeaseId + 1) }
  match (List.range maxLeases).find? fun i => (manager.leases i).isNone with
  | some i =>
    (.ok lease.leaseId,
      { marked with
        leases := Function.update manager.leases i (some lease)
        leaseCount := manager.leaseCount + 1 })
  | none => (.error .internalError, marked)

def grantLease (maxDevices maxLeases : Nat) (manager : DeviceLeaseManager) (deviceId : Nat)
    (partition : PartitionId) (durationEpochs currentEpoch capHash : Nat) :
    Except RvmError Nat × DeviceLeaseManager :=
  match manager.findDeviceIndex maxDevices deviceId with
  | none => (.error .deviceLeaseNotFound, manager)
  | some deviceIdx =>
    match manager.devices deviceIdx with
    | none => (.error .internalError, manager)
    | some device =>
      if device.available = false then (.error .deviceLeaseConflict, manager)
      else if manager.leaseCount ≥ maxLeases then (.error .resourceLimitExceeded, manager)
      else
        manager.storeLease maxLeases deviceIdx
          ⟨manager.nextLeaseId, deviceId, partition, currentEpoch,
            saturatingAdd64 currentEpoch durationEpochs, capHash⟩

def releaseDevice (maxDevices : Nat) (manager : DeviceLeaseManager) (deviceId : Nat) :
    DeviceLeaseManager :=
  match manager.findDeviceIndex maxDevices deviceId with
  | some i => manager.setAvailable i true
  | none => manager

def dropLease (manager : DeviceLeaseManager) (i : Nat) : DeviceLeaseManager :=
  { manager with
    leases := Function.update manager.leases i none
    leaseCount := manager.leaseCount - 1 }

/-- The lease in a slot, if it has this identifier. -/
def leaseIn (manager : DeviceLeaseManager) (leaseId i : Nat) : Option ActiveLease :=
  (manager.leases i).filter fun lease => lease.leaseId = leaseId

def revokeLease (maxDevices maxLeases : Nat) (manager : DeviceLeaseManager) (leaseId : Nat) :
    Except RvmError DeviceLeaseManager :=
  let found := (List.range maxLeases).findSome? fun i =>
    (manager.leaseIn leaseId i).map fun lease => (i, lease)
  match found with
  | some (i, lease) => .ok ((manager.dropLease i).releaseDevice maxDevices lease.deviceId)
  | none => .error .deviceLeaseNotFound

/-- The first lease with an identifier, unless it has expired. -/
def checkLease (maxLeases : Nat) (manager : DeviceLeaseManager) (leaseId currentEpoch : Nat) :
    Except RvmError ActiveLease :=
  match (List.range maxLeases).findSome? (manager.leaseIn leaseId) with
  | some lease => if lease.expiryEpoch ≤ currentEpoch then .error .deviceLeaseExpired else .ok lease
  | none => .error .deviceLeaseNotFound

def expiredIn (manager : DeviceLeaseManager) (currentEpoch i : Nat) : Option ActiveLease :=
  (manager.leases i).filter fun lease => lease.expiryEpoch ≤ currentEpoch

def expireSlot (currentEpoch : Nat) (state : DeviceLeaseManager × List Nat) (i : Nat) :
    DeviceLeaseManager × List Nat :=
  match state.1.expiredIn currentEpoch i with
  | some lease => (state.1.dropLease i, state.2 ++ [lease.deviceId])
  | none => state

/-- Drop the expired leases, then release their devices; also returns how many
expired. -/
def expireLeases (maxDevices maxLeases : Nat) (manager : DeviceLeaseManager) (currentEpoch : Nat) :
    Nat × DeviceLeaseManager :=
  let swept := (List.range maxLeases).foldl (expireSlot currentEpoch) (manager, [])
  (asU32 swept.2.length, swept.2.foldl (releaseDevice maxDevices) swept.1)

def getLeaseHolder (maxLeases : Nat) (manager : DeviceLeaseManager) (deviceId : Nat) :
    Option PartitionId :=
  (List.range maxLeases).findSome? fun i =>
    ((manager.leases i).filter fun lease => lease.deviceId = deviceId).map ActiveLease.partitionId

def isDeviceAvailable (maxDevices : Nat) (manager : DeviceLeaseManager) (deviceId : Nat) : Bool :=
  (((manager.findDeviceIndex maxDevices deviceId).bind manager.devices).map
    DeviceInfo.available).getD false

end DeviceLeaseManager

inductive DeviceCall where
  | registerDevice (info : DeviceInfo)
  | grantLease (deviceId : Nat) (partition : PartitionId)
      (durationEpochs currentEpoch capHash : Nat)
  | revokeLease (leaseId : Nat)
  | checkLease (leaseId currentEpoch : Nat)
  | expireLeases (currentEpoch : Nat)
  | getLeaseHolder (deviceId : Nat)
  | isDeviceAvailable (deviceId : Nat)
deriving DecidableEq, Repr

/-- What a successful call returns. -/
inductive DeviceReply where
  | device (id : Nat)
  | lease (id : Nat)
  | done
  | valid (lease : ActiveLease)
  | expired (count : Nat)
  | holder (partition : Option PartitionId)
  | available (answer : Bool)
deriving DecidableEq, Repr

abbrev DeviceOutcome := Except RvmError DeviceReply

namespace DeviceLeaseManager

def apply (maxDevices maxLeases : Nat) (manager : DeviceLeaseManager) :
    DeviceCall → DeviceOutcome × DeviceLeaseManager
  | .registerDevice info =>
    match manager.registerDevice maxDevices info with
    | .ok (id, next) => (.ok (.device id), next)
    | .error e => (.error e, manager)
  | .grantLease deviceId partition durationEpochs currentEpoch capHash =>
    let result := manager.grantLease maxDevices maxLeases deviceId partition durationEpochs
      currentEpoch capHash
    (result.1.map .lease, result.2)
  | .revokeLease leaseId =>
    match manager.revokeLease maxDevices maxLeases leaseId with
    | .ok next => (.ok .done, next)
    | .error e => (.error e, manager)
  | .checkLease leaseId currentEpoch =>
    ((manager.checkLease maxLeases leaseId currentEpoch).map .valid, manager)
  | .expireLeases currentEpoch =>
    let result := manager.expireLeases maxDevices maxLeases currentEpoch
    (.ok (.expired result.1), result.2)
  | .getLeaseHolder deviceId => (.ok (.holder (manager.getLeaseHolder maxLeases deviceId)), manager)
  | .isDeviceAvailable deviceId =>
    (.ok (.available (manager.isDeviceAvailable maxDevices deviceId)), manager)

def Step (maxDevices maxLeases : Nat) (manager : DeviceLeaseManager)
    (label : DeviceCall × DeviceOutcome) (next : DeviceLeaseManager) : Prop :=
  manager.apply maxDevices maxLeases label.1 = (label.2, next)

end DeviceLeaseManager

end Rvm.Partition
