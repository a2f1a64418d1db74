import Mathlib.Tactic.Common

/-!
Owns what the subsystems share: the error type (`rvm-types/src/error.rs`), digests, machine
arithmetic, narrowing casts, addresses and the page size, and coherence scores and cut
pressures (`rvm-types/src/coherence.rs`).
-/

namespace Rvm

def fnv1a64 (data : List UInt8) : Nat :=
  data.foldl (fun hash byte => (hash ^^^ byte.toNat) * 0x00000100000001b3 % 18446744073709551616)
    0xcbf29ce484222325

def fnv1a32 (data : List UInt8) : Nat := fnv1a64 data % 4294967296

inductive RvmError where
  | partitionNotFound | invalidPartitionState | partitionLimitExceeded | splitPreconditionFailed
  | mergePreconditionFailed | migrationTimeout
  | vcpuNotFound | vcpuLimitReached
  | insufficientCapability | staleCapability | capabilityTypeMismatch | delegationDepthExceeded
  | capabilityConsumed
  | witnessVerificationFailed | witnessChainBroken | witnessLogFull
  | proofInvalid | proofTierInsufficient | proofBudgetExceeded
  | coherenceBelowThreshold | minCutBudgetExceeded
  | memoryOverlap | alignmentError | invalidTierTransition | outOfMemory
  | deviceLeaseNotFound | deviceLeaseExpired | deviceLeaseConflict
  | checkpointNotFound | checkpointCorrupted | failureEscalated
  | resourceLimitExceeded | unsupported | internalError
deriving DecidableEq, Repr

def u64Max : Nat := 18446744073709551615

/-- The value of a `u64` or `usize` computation that may wrap. -/
def asU64 (value : Nat) : Nat := value % 18446744073709551616

theorem asU64_of_lt {value : Nat} (small : value < 18446744073709551616) : asU64 value = value :=
  Nat.mod_eq_of_lt small

def asU16 (value : Nat) : Nat := value % 65536

def saturatingAdd64 (left right : Nat) : Nat := min (left + right) u64Max

theorem saturatingAdd64_le {left right bound : Nat} (fits : left + right ≤ bound) :
    saturatingAdd64 left right ≤ bound :=
  Nat.le_trans (Nat.min_le_left _ _) fits

def checkedAdd64 (left right : Nat) : Option Nat :=
  if left + right < 18446744073709551616 then some (left + right) else none

theorem checkedAdd64_eq {left right total : Nat}
    (added : checkedAdd64 left right = some total) : total = left + right := by
  unfold checkedAdd64 at added
  split at added
  · exact (Option.some.inj added).symm
  · cases added

theorem checkedAdd64_of_le {left right : Nat} (small : left + right ≤ u64Max) :
    checkedAdd64 left right = some (left + right) :=
  if_pos (Nat.lt_succ_of_le small)

theorem le_of_checkedAdd64 {left right total : Nat}
    (added : checkedAdd64 left right = some total) : left + right ≤ u64Max := by
  unfold checkedAdd64 at added
  split at added
  · exact Nat.le_of_lt_succ ‹_›
  · cases added

def pageSize : Nat := 4096

/-- `is_page_aligned`: at least twelve trailing zeros. -/
def isPageAligned (addr : Nat) : Bool := addr % 4096 == 0

/-- `left + right` on values below `bound`; `none` is the panic of a build that checks
for overflow. -/
def plainAdd (checks : Bool) (bound left right : Nat) : Option Nat :=
  if left + right < bound then some (left + right)
  else if checks then none
  else some ((left + right) % bound)

def plainSub (checks : Bool) (bound left right : Nat) : Option Nat :=
  if right ≤ left then some (left - right)
  else if checks then none
  else some (left + bound - right)

def plainMul (checks : Bool) (bound left right : Nat) : Option Nat :=
  if left * right < bound then some (left * right)
  else if checks then none
  else some (left * right % bound)

/-- `1 << bits` in a word of `width` bits. -/
def plainBit (checks : Bool) (width bits : Nat) : Option Nat :=
  if bits < width then some (1 <<< bits)
  else if checks then none
  else some (1 <<< (bits % width))

variable {checks : Bool} {bound left right total width bits : Nat}

theorem plainAdd_of_lt (fits : left + right < bound) :
    plainAdd checks bound left right = some (left + right) :=
  if_pos fits

theorem plainAdd_of_le (overflow : bound ≤ left + right) :
    plainAdd checks bound left right =
      if checks then none else some ((left + right) % bound) :=
  if_neg (Nat.not_lt.mpr overflow)

theorem plainSub_of_le (fits : right ≤ left) :
    plainSub checks bound left right = some (left - right) :=
  if_pos fits

theorem plainMul_of_lt (fits : left * right < bound) :
    plainMul checks bound left right = some (left * right) :=
  if_pos fits

theorem plainBit_of_lt (fits : bits < width) : plainBit checks width bits = some (1 <<< bits) :=
  if_pos fits

end Rvm

namespace Rvm

structure CoherenceScore where
  basisPoints : Nat
  bounded : basisPoints ≤ 10000
deriving DecidableEq, Repr

namespace CoherenceScore

def max : CoherenceScore := ⟨10000, Nat.le_refl _⟩

def defaultMergeThreshold : CoherenceScore := ⟨7000, by decide⟩

/-- Values above `10000` are clamped. -/
def fromBasisPoints (bp : Nat) : CoherenceScore :=
  if small : bp ≤ 10000 then ⟨bp, small⟩ else ⟨10000, Nat.le_refl _⟩

def meetsThreshold (score threshold : CoherenceScore) : Bool :=
  threshold.basisPoints ≤ score.basisPoints

end CoherenceScore

structure CutPressure where
  asFixed : Nat
deriving DecidableEq, Repr

def CutPressure.zero : CutPressure := ⟨0⟩

end Rvm
