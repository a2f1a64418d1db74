import Rvm.Foundation.Call
import Rvm.Foundation.Run
import Rvm.Foundation.Tables
import Rvm.Types.Basic
import Rvm.Types.Capability

/-!
Owns the resource quotas of `rvm-wasm/src/quota.rs`: the table of quotas and usage, the
three checks that record what they admit, the reset at the start of an epoch, and what each
call does.
-/

namespace Rvm.Wasm

open Foundation Foundation.Call

/-- The limits of a partition; each fits its machine word. -/
structure PartitionQuota where
  maxCpuUsPerEpoch : Nat
  maxMemoryPages : Nat
  maxIpcPerEpoch : Nat
  maxAgents : Nat
  cpu_le : maxCpuUsPerEpoch ≤ u64Max
  memory_le : maxMemoryPages ≤ u32Max
  ipc_le : maxIpcPerEpoch ≤ u32Max
deriving DecidableEq

structure ResourceUsage where
  cpuUs : Nat
  memoryPages : Nat
  ipcCount : Nat
  agentCount : Nat
deriving DecidableEq, Repr

def ResourceUsage.none : ResourceUsage := ⟨0, 0, 0, 0⟩

structure QuotaEntry where
  partition : PartitionId
  quota : PartitionQuota
  usage : ResourceUsage
deriving DecidableEq

def QuotaEntry.reset (entry : QuotaEntry) : QuotaEntry :=
  { entry with usage := { entry.usage with cpuUs := 0, ipcCount := 0 } }

/-- The slots, as many as the tracker has room for, and the number of partitions. -/
structure QuotaTracker where
  quotas : List (Option QuotaEntry)
  count : Nat

/-- The resources that are checked and recorded by one call. -/
inductive ResourceKind where
  | cpu | memory | ipc
deriving DecidableEq, Repr

namespace ResourceKind

def saturatingAdd32 (left right : Nat) : Nat := min (left + right) u32Max

def used : ResourceKind → ResourceUsage → Nat
  | .cpu, usage => usage.cpuUs
  | .memory, usage => usage.memoryPages
  | .ipc, usage => usage.ipcCount

def limit : ResourceKind → PartitionQuota → Nat
  | .cpu, quota => quota.maxCpuUsPerEpoch
  | .memory, quota => quota.maxMemoryPages
  | .ipc, quota => quota.maxIpcPerEpoch

/-- The sum that the check compares: of two `u64`, or of two `u32` widened to `u64`. -/
def total (checks : Bool) : ResourceKind → Nat → Nat → Option Nat
  | .cpu, held, amount => plainAdd checks 18446744073709551616 held amount
  | .memory, held, amount => some (held + amount)
  | .ipc, held, amount => some (held + amount)

def record : ResourceKind → ResourceUsage → Nat → ResourceUsage
  | .cpu, usage, us => { usage with cpuUs := saturatingAdd64 usage.cpuUs us }
  | .memory, usage, pages => { usage with memoryPages := saturatingAdd32 usage.memoryPages pages }
  | .ipc, usage, count => { usage with ipcCount := saturatingAdd32 usage.ipcCount count }

end ResourceKind

abbrev QuotaCall (α : Type) := Call RvmError QuotaTracker α

namespace QuotaTracker

def new (max : Nat) : QuotaTracker := ⟨List.replicate max none, 0⟩

def partitionOf (slot : Option QuotaEntry) : Option PartitionId := slot.map (·.partition)

def find (tracker : QuotaTracker) (partition : PartitionId) : Option QuotaEntry :=
  (entryFor partitionOf tracker.quotas (some partition)).join

def write (tracker : QuotaTracker) (entry : QuotaEntry) : QuotaTracker :=
  match tracker.quotas.findIdx? (fun slot => decide (partitionOf slot = some entry.partition)) with
  | none => tracker
  | some index => { tracker with quotas := tracker.quotas.set index (some entry) }

def register (partition : PartitionId) (quota : PartitionQuota) : QuotaCall Unit := do
  let here ← get
  throwIf (here.find partition).isSome .invalidPartitionState
  throwIf (here.count ≥ here.quotas.length) .resourceLimitExceeded
  let index ← orThrow (here.quotas.findIdx? fun slot => decide (partitionOf slot = none))
    .internalError
  set (⟨here.quotas.set index (some ⟨partition, quota, .none⟩), here.count + 1⟩ : QuotaTracker)

def checkAndRecord (checks : Bool) (kind : ResourceKind) (partition : PartitionId) (amount : Nat) :
    QuotaCall Unit := do
  let here ← get
  let entry ← orThrow (here.find partition) .partitionNotFound
  let total ← orPanic (kind.total checks (kind.used entry.usage) amount)
  throwIf (total > kind.limit entry.quota) .resourceLimitExceeded
  set (here.write { entry with usage := kind.record entry.usage amount })

def checkAndRecordCpu (checks : Bool) (partition : PartitionId) (us : Nat) : QuotaCall Unit :=
  checkAndRecord checks .cpu partition us

def checkAndRecordMemory (checks : Bool) (partition : PartitionId) (pages : Nat) :
    QuotaCall Unit :=
  checkAndRecord checks .memory partition pages

def checkAndRecordIpc (checks : Bool) (partition : PartitionId) : QuotaCall Unit :=
  checkAndRecord checks .ipc partition 1

def resetEpochCounters : QuotaCall Unit :=
  modify fun here => { here with quotas := here.quotas.map (Option.map QuotaEntry.reset) }

/-- Whether a partition is over budget on any dimension. -/
def enforceQuota (partition : PartitionId) : QuotaCall Bool := do
  let here ← get
  let entry ← orThrow (here.find partition) .partitionNotFound
  return decide (entry.usage.cpuUs > entry.quota.maxCpuUsPerEpoch) ||
    decide (entry.usage.memoryPages > entry.quota.maxMemoryPages) ||
    decide (entry.usage.ipcCount > entry.quota.maxIpcPerEpoch) ||
    decide (entry.usage.agentCount > entry.quota.maxAgents)

end QuotaTracker

end Rvm.Wasm
