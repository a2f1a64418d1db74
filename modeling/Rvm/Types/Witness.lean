import Mathlib.Tactic.Common

/-!
Owns the witness record and the action kinds of `rvm-types/src/witness.rs`.
Integer fields are natural numbers. The private `reserved` and `pad` fields,
which are always zero, are left out.
-/

namespace Rvm

structure WitnessRecord where
  sequence : Nat
  timestampNs : Nat
  actionKind : Nat
  proofTier : Nat
  flags : Nat
  actorPartitionId : Nat
  targetObjectId : Nat
  capabilityHash : Nat
  payload : Vector UInt8 8
  prevHash : Nat
  recordHash : Nat
  aux : Vector UInt8 8
deriving DecidableEq, Repr

def WitnessRecord.zeroed : WitnessRecord :=
  ⟨0, 0, 0, 0, 0, 0, 0, 0, Vector.replicate 8 0, 0, 0, Vector.replicate 8 0⟩

structure WitnessHash where
  bytes : Vector UInt8 32
deriving DecidableEq, Repr

def WitnessHash.isZero (hash : WitnessHash) : Bool := hash.bytes == Vector.replicate 32 0

/-- The little-endian bytes of a `u64`, as `to_le_bytes` lays them out. -/
def littleEndian (value : Nat) : Vector UInt8 8 :=
  Vector.ofFn fun i => UInt8.ofNat (value >>> (8 * i.val))

/-- Privileged actions that produce witness records. -/
inductive ActionKind where
  | partitionCreate | partitionDestroy | partitionSuspend | partitionResume | partitionSplit
  | partitionMerge | partitionHibernate | partitionReconstruct | partitionMigrate
  | capabilityGrant | capabilityRevoke | capabilityDelegate | capabilityEscalate
  | capabilityAttenuated | regionCreate | regionDestroy | regionTransfer | regionShare
  | regionUnshare | regionPromote | regionDemote | regionMap | regionUnmap | commEdgeCreate
  | commEdgeDestroy | ipcSend | ipcReceive | zeroCopyShare | notificationSignal
  | deviceLeaseGrant | deviceLeaseRevoke | deviceLeaseExpire | deviceLeaseRenew | proofVerifiedP1
  | proofVerifiedP2 | proofVerifiedP3 | proofRejected | proofEscalated | schedulerEpoch
  | schedulerModeSwitch | taskSpawn | taskTerminate | structuralSplit | structuralMerge
  | recoveryEnter | recoveryExit | checkpointCreated | checkpointRestored | minCutBudgetExceeded
  | degradedModeEntered | degradedModeExited | bootAttestation | bootComplete | teeAttestation
  | vectorPut | vectorDelete | graphMutation | coherenceRecomputed | vmidReclaim
  | migrationTimeout | anchorExternalReceipt | contextResolve | contextRead | contextSearch
  | contextPut | contextAliasUpdate | contextForget | contextExecute | contextEpochSeal
deriving DecidableEq, Repr

def ActionKind.asU8 : ActionKind → Nat
  | .partitionCreate => 0x01
  | .partitionDestroy => 0x02
  | .partitionSuspend => 0x03
  | .partitionResume => 0x04
  | .partitionSplit => 0x05
  | .partitionMerge => 0x06
  | .partitionHibernate => 0x07
  | .partitionReconstruct => 0x08
  | .partitionMigrate => 0x09
  | .capabilityGrant => 0x10
  | .capabilityRevoke => 0x11
  | .capabilityDelegate => 0x12
  | .capabilityEscalate => 0x13
  | .capabilityAttenuated => 0x14
  | .regionCreate => 0x20
  | .regionDestroy => 0x21
  | .regionTransfer => 0x22
  | .regionShare => 0x23
  | .regionUnshare => 0x24
  | .regionPromote => 0x25
  | .regionDemote => 0x26
  | .regionMap => 0x27
  | .regionUnmap => 0x28
  | .commEdgeCreate => 0x30
  | .commEdgeDestroy => 0x31
  | .ipcSend => 0x32
  | .ipcReceive => 0x33
  | .zeroCopyShare => 0x34
  | .notificationSignal => 0x35
  | .deviceLeaseGrant => 0x40
  | .deviceLeaseRevoke => 0x41
  | .deviceLeaseExpire => 0x42
  | .deviceLeaseRenew => 0x43
  | .proofVerifiedP1 => 0x50
  | .proofVerifiedP2 => 0x51
  | .proofVerifiedP3 => 0x52
  | .proofRejected => 0x53
  | .proofEscalated => 0x54
  | .schedulerEpoch => 0x60
  | .schedulerModeSwitch => 0x61
  | .taskSpawn => 0x62
  | .taskTerminate => 0x63
  | .structuralSplit => 0x64
  | .structuralMerge => 0x65
  | .recoveryEnter => 0x70
  | .recoveryExit => 0x71
  | .checkpointCreated => 0x72
  | .checkpointRestored => 0x73
  | .minCutBudgetExceeded => 0x74
  | .degradedModeEntered => 0x75
  | .degradedModeExited => 0x76
  | .bootAttestation => 0x80
  | .bootComplete => 0x81
  | .teeAttestation => 0x82
  | .vectorPut => 0x90
  | .vectorDelete => 0x91
  | .graphMutation => 0x92
  | .coherenceRecomputed => 0x93
  | .vmidReclaim => 0xa0
  | .migrationTimeout => 0xa1
  | .anchorExternalReceipt => 0xb0
  | .contextResolve => 0xc0
  | .contextRead => 0xc1
  | .contextSearch => 0xc2
  | .contextPut => 0xc3
  | .contextAliasUpdate => 0xc4
  | .contextForget => 0xc5
  | .contextExecute => 0xc6
  | .contextEpochSeal => 0xc7

end Rvm
