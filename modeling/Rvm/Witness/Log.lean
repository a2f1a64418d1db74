import Mathlib.Data.List.Range
import Rvm.Types.Basic
import Rvm.Types.Witness

/-!
Owns the append-only witness log of `rvm-witness/src/log.rs`: a ring of records
with a running chain hash. The chain hash of `hash.rs` (SHA-256 of the previous
hash and the sequence number, folded to 64 bits) is a parameter together with
its fold to the 32-bit fields.
-/

namespace Rvm.Witness

/-- The hash functions that appending and verification share. -/
structure ChainHasher where
  computeChainHash : Nat → Nat → Nat
  foldU64ToU32 : Nat → Nat

def foldU64ToU32 (h : Nat) : Nat := ((h >>> 32) ^^^ h) % 4294967296

structure WitnessLog where
  /-- The ring; only indices below `N` are meaningful. -/
  records : Nat → WitnessRecord
  writePos : Nat
  chainHash : Nat
  sequence : Nat
  totalEmitted : Nat
  /-- Ghost: how many records were ever appended; `totalEmitted` is this in 64 bits. -/
  written : Nat

/-- The log head: what the next record continues. -/
structure WitnessCheckpoint where
  nextSequence : Nat
  chainHash : Nat
deriving DecidableEq, Repr

namespace WitnessLog

def new : WitnessLog := ⟨fun _ => .zeroed, 0, 0, 0, 0, 0⟩

def checkpoint (log : WitnessLog) : WitnessCheckpoint := ⟨log.sequence, log.chainHash⟩

def stamp (hasher : ChainHasher) (log : WitnessLog) (record : WitnessRecord) : WitnessRecord :=
  { record with
    sequence := log.sequence
    prevHash := hasher.foldU64ToU32 log.chainHash
    recordHash := hasher.foldU64ToU32 (hasher.computeChainHash log.chainHash log.sequence) }

def store (N : Nat) (hasher : ChainHasher) (log : WitnessLog) (record : WitnessRecord) :
    WitnessLog where
  records := Function.update log.records log.writePos record
  writePos := (log.writePos + 1) % N
  chainHash := hasher.computeChainHash log.chainHash log.sequence
  sequence := asU64 (log.sequence + 1)
  totalEmitted := asU64 (log.totalEmitted + 1)
  written := log.written + 1

/-- Returns the sequence number and the log it leaves. -/
def append (N : Nat) (hasher : ChainHasher) (log : WitnessLog) (record : WitnessRecord) :
    Nat × WitnessLog :=
  (log.sequence, log.store N hasher (log.stamp hasher record))

/-- The signature covers the filled record and goes to `aux`. -/
def signed (hasher : ChainHasher) (log : WitnessLog) (record : WitnessRecord)
    (sign : WitnessRecord → Vector UInt8 8) : WitnessRecord :=
  { log.stamp hasher record with aux := sign (log.stamp hasher record) }

def signedAppend (N : Nat) (hasher : ChainHasher) (log : WitnessLog) (record : WitnessRecord)
    (sign : WitnessRecord → Vector UInt8 8) : Nat × WitnessLog :=
  (log.sequence, log.store N hasher (log.signed hasher record sign))

end WitnessLog

namespace WitnessLog

variable {N : Nat} {hasher : ChainHasher} {log : WitnessLog}

/-- The records in the order of their emission, as long as at most `N` were
emitted. -/
def emitted (log : WitnessLog) : List WitnessRecord :=
  (List.range log.written).map log.records

/-- The write position follows the number of records emitted. -/
def InStep (N : Nat) (log : WitnessLog) : Prop := log.writePos = log.written % N

theorem InStep.append (inStep : log.InStep N) (record : WitnessRecord) :
    (log.append N hasher record).2.InStep N := by
  unfold InStep at inStep ⊢
  rw [WitnessLog.append, store, inStep, Nat.mod_add_mod]

theorem emitted_append (inStep : log.InStep N) (room : log.written < N)
    (record : WitnessRecord) :
    (log.append N hasher record).2.emitted = log.emitted ++ [log.stamp hasher record] := by
  have position : log.writePos = log.written := inStep.trans (Nat.mod_eq_of_lt room)
  rw [emitted, WitnessLog.append, store, position, List.range_succ, List.map_append, emitted]
  congr 1
  · apply List.map_congr_left
    intro i inRange
    exact Function.update_of_ne (Nat.ne_of_lt (List.mem_range.mp inRange)) _ _
  · rw [List.map_singleton]
    dsimp only
    rw [Function.update_self]

end WitnessLog

inductive WitnessCall where
  | append (record : WitnessRecord)
  | signedAppend (record : WitnessRecord) (sign : WitnessRecord → Vector UInt8 8)

namespace WitnessLog

def emits (hasher : ChainHasher) (log : WitnessLog) : WitnessCall → WitnessRecord
  | .append record => log.stamp hasher record
  | .signedAppend record sign => log.signed hasher record sign

def apply (N : Nat) (hasher : ChainHasher) (log : WitnessLog) : WitnessCall → WitnessLog
  | .append record => (log.append N hasher record).2
  | .signedAppend record sign => (log.signedAppend N hasher record sign).2

def run (N : Nat) (hasher : ChainHasher) (log : WitnessLog) (calls : List WitnessCall) :
    WitnessLog :=
  calls.foldl (apply N hasher) log

/-- The records a run of calls stores, in order. -/
def produced (N : Nat) (hasher : ChainHasher) (log : WitnessLog) :
    List WitnessCall → List WitnessRecord
  | [] => []
  | call :: rest => log.emits hasher call :: produced N hasher (log.apply N hasher call) rest

variable {N : Nat} {hasher : ChainHasher} {log : WitnessLog}

theorem apply_eq_store (call : WitnessCall) :
    log.apply N hasher call = log.store N hasher (log.emits hasher call) := by
  cases call <;> rfl

theorem emits_sequence (call : WitnessCall) : (log.emits hasher call).sequence = log.sequence := by
  cases call <;> rfl

theorem emits_prevHash (call : WitnessCall) :
    (log.emits hasher call).prevHash = hasher.foldU64ToU32 log.chainHash := by
  cases call <;> rfl

theorem emits_recordHash (call : WitnessCall) :
    (log.emits hasher call).recordHash =
      hasher.foldU64ToU32 (hasher.computeChainHash log.chainHash log.sequence) := by
  cases call <;> rfl

end WitnessLog

end Rvm.Witness
