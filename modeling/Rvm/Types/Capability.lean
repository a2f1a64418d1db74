import Mathlib.Tactic.Common

/-!
Owns the vocabulary of `rvm-types` that the capability subsystem reads:
partition identifiers, the rights bitmap, capability types and tokens. Machine
words are natural numbers; where the source casts, wraps or compares with the
`u32` sentinel the width is explicit.
-/

namespace Rvm

/-- The `u32` sentinel `u32::MAX`: "no parent", "no child", "no sibling". -/
def u32Max : Nat := 4294967295

/-- The cast `index as u32`. -/
def asU32 (value : Nat) : Nat := value % 4294967296

theorem asU32_of_lt {value : Nat} (small : value < u32Max) : asU32 value = value :=
  Nat.mod_eq_of_lt (by unfold u32Max at small; omega)

structure PartitionId where
  asU32 : Nat
deriving DecidableEq, Repr

def PartitionId.hypervisor : PartitionId := ⟨0⟩

def PartitionId.isHypervisor (id : PartitionId) : Bool := id.asU32 == 0

/-- Access rights bitmap (`bitflags` over `u8`). -/
structure CapRights where
  bits : BitVec 8
deriving DecidableEq, Repr

namespace CapRights

def empty : CapRights := ⟨0x00#8⟩
def read : CapRights := ⟨0x01#8⟩
def write : CapRights := ⟨0x02#8⟩
def grant : CapRights := ⟨0x04#8⟩
def revoke : CapRights := ⟨0x08#8⟩
def execute : CapRights := ⟨0x10#8⟩
def prove : CapRights := ⟨0x20#8⟩
def grantOnce : CapRights := ⟨0x40#8⟩

def union (left right : CapRights) : CapRights := ⟨left.bits ||| right.bits⟩

def difference (left right : CapRights) : CapRights := ⟨left.bits &&& ~~~right.bits⟩

def contains (held required : CapRights) : Bool :=
  held.bits &&& required.bits == required.bits

theorem contains_iff {held required : CapRights} :
    held.contains required = true ↔
      ∀ index, required.bits.getLsbD index = true → held.bits.getLsbD index = true := by
  simp only [contains, beq_iff_eq]
  constructor
  · intro equal index set
    rw [← equal, BitVec.getLsbD_and, Bool.and_eq_true] at set
    exact set.1
  · intro covered
    apply BitVec.eq_of_getLsbD_eq
    intro index _
    rw [BitVec.getLsbD_and]
    cases set : required.bits.getLsbD index with
    | false => simp
    | true => simp [covered index set]

@[simp] theorem contains_refl (held : CapRights) : held.contains held = true := by
  simp [contains]

theorem contains_trans {upper middle lower : CapRights}
    (first : upper.contains middle = true) (second : middle.contains lower = true) :
    upper.contains lower = true := by
  rw [contains_iff] at *
  exact fun index set => first index (second index set)

theorem contains_difference (held removed : CapRights) :
    held.contains (held.difference removed) = true := by
  rw [contains_iff]
  intro index set
  simp only [difference, BitVec.getLsbD_and, Bool.and_eq_true] at set
  exact set.1

theorem difference_grantOnce_contains_grant (held : CapRights) :
    (held.difference grantOnce).contains grant = held.contains grant := by
  have masked : ~~~(0x40#8) &&& 0x04#8 = 0x04#8 := by decide
  simp only [difference, contains, grantOnce, grant, BitVec.and_assoc, masked]

theorem difference_grantOnce_not_contains (held : CapRights) :
    (held.difference grantOnce).contains grantOnce = false := by
  have masked : ~~~(0x40#8) &&& 0x40#8 = 0x00#8 := by decide
  simp only [difference, contains, grantOnce, BitVec.and_assoc, masked, BitVec.and_zero]
  decide

end CapRights

/-- The type of resource a capability refers to. -/
inductive CapType where
  | partition | region | commEdge | device | scheduler | witnessLog | proof | vcpu | coherence
  | context
deriving DecidableEq, Repr

/-- An unforgeable capability token. -/
structure CapToken where
  id : Nat
  capType : CapType
  rights : CapRights
  epoch : Nat
deriving DecidableEq, Repr

def CapToken.hasRights (token : CapToken) (required : CapRights) : Bool :=
  token.rights.contains required

def CapToken.truncatedHash (token : CapToken) : Nat :=
  asU32 token.id ^^^ asU32 (token.id >>> 32) ^^^ token.epoch ^^^ (token.rights.bits.toNat <<< 24)

end Rvm
