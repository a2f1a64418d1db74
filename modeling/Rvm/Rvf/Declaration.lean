import Mathlib.Data.List.Sort
import Rvm.Foundation.Text
import Rvm.Partition.Device

/-!
Owns the capability classes of `rvm-rvf/src/capability.rs`, what of `rvm-cap` each stands
for, and the declarations of an RVF in its plaintext metadata: the classes, and the stream
profile of `report.rs`.
-/

namespace Rvm.Rvf

open List

open Partition (DeviceClass)

inductive CapabilityClass where
  | memory | filesystem | network | model | mcp | process | clock | randomness | gpu | sensor
  | display | audio | clipboard | persistentState | interAgentMessaging
deriving DecidableEq, Repr

structure RvmBinding where
  declared : CapabilityClass
  capType : CapType
  rights : CapRights
  deviceClass : Option DeviceClass
deriving DecidableEq, Repr

namespace CapabilityClass

def asU8 (declared : CapabilityClass) : Nat := declared.ctorIdx

def all : List CapabilityClass :=
  [.memory, .filesystem, .network, .model, .mcp, .process, .clock, .randomness, .gpu, .sensor,
    .display, .audio, .clipboard, .persistentState, .interAgentMessaging]

theorem mem_all (declared : CapabilityClass) : declared ∈ all := by
  cases declared <;> decide

def asStr : CapabilityClass → List Char
  | .memory => "memory".toList
  | .filesystem => "filesystem".toList
  | .network => "network".toList
  | .model => "model".toList
  | .mcp => "mcp".toList
  | .process => "process".toList
  | .clock => "clock".toList
  | .randomness => "randomness".toList
  | .gpu => "gpu".toList
  | .sensor => "sensor".toList
  | .display => "display".toList
  | .audio => "audio".toList
  | .clipboard => "clipboard".toList
  | .persistentState => "persistent-state".toList
  | .interAgentMessaging => "inter-agent-messaging".toList

def fromWire (name : List Char) : Option CapabilityClass := all.find? fun other => other.asStr = name

theorem fromWire_eq_some {name : List Char} {declared : CapabilityClass} :
    fromWire name = some declared ↔ declared.asStr = name := by
  constructor
  · intro found
    simpa using List.find?_some found
  · rintro rfl
    cases declared <;> decide

/-- Clipboard and randomness have no object in RVM. -/
def rvmBinding (declared : CapabilityClass) : Option RvmBinding :=
  let readWrite := CapRights.read.union CapRights.write
  match declared with
  | .memory | .persistentState => some ⟨declared, .region, readWrite, none⟩
  | .model => some ⟨declared, .region, .read, none⟩
  | .mcp | .interAgentMessaging => some ⟨declared, .commEdge, readWrite, none⟩
  | .process => some ⟨declared, .partition, .write, none⟩
  | .filesystem => some ⟨declared, .device, readWrite, some .storage⟩
  | .network => some ⟨declared, .device, readWrite, some .network⟩
  | .gpu => some ⟨declared, .device, readWrite, some .graphics⟩
  | .display => some ⟨declared, .device, .write, some .graphics⟩
  | .clock => some ⟨declared, .device, .read, some .timer⟩
  | .sensor => some ⟨declared, .device, .read, some .generic⟩
  | .audio => some ⟨declared, .device, readWrite, some .generic⟩
  | .clipboard | .randomness => none

def isRepresentable (declared : CapabilityClass) : Bool := declared.rvmBinding.isSome

theorem rvmBinding_declared {declared : CapabilityClass} {binding : RvmBinding}
    (bound : declared.rvmBinding = some binding) : binding.declared = declared := by
  cases declared <;> cases bound <;> rfl

end CapabilityClass

/-- What the declarations of an RVF are mapped to. -/
structure CapabilityMapping where
  granted : List RvmBinding
  denied : List CapabilityClass
deriving DecidableEq, Repr

/-- The loop of `map_declared` over the classes that remain; a declared class
without binding is refused. -/
def mapClasses (declared : List CapabilityClass) :
    List CapabilityClass → Except CapabilityClass CapabilityMapping
  | [] => .ok ⟨[], []⟩
  | next :: rest =>
    if declared.contains next then
      match next.rvmBinding with
      | none => .error next
      | some binding => do
        let mapping ← mapClasses declared rest
        return ⟨binding :: mapping.granted, mapping.denied⟩
    else do
      let mapping ← mapClasses declared rest
      return ⟨mapping.granted, next :: mapping.denied⟩

/-- `map_declared`; the error is the class of `UnsupportedCapability`. -/
def mapDeclared (declared : List CapabilityClass) : Except CapabilityClass CapabilityMapping :=
  mapClasses declared CapabilityClass.all

open Foundation

def capabilityDeclarationKey : List Char := "rvf.capabilities".toList

def streamProfileDeclarationKey : List UInt8 := utf8 "rvm.stream_profile".toList

def declarationValue (line : List Char) : Option (List Char) :=
  (stripText capabilityDeclarationKey line).bind (stripText ['='])

def lineNames (line : List Char) : List (List Char) :=
  match declarationValue line with
  | none => []
  | some value => (value.splitOn ',').map trim

def declaredNames (payload : List UInt8) : List (List Char) :=
  match fromUtf8 payload with
  | none => []
  | some text => (lines text).flatMap lineNames

def pushNew (found : List CapabilityClass) (next : CapabilityClass) : List CapabilityClass :=
  if found.contains next then found else found ++ [next]

def ClassOrder (left right : CapabilityClass) : Prop := left.asU8 ≤ right.asU8

instance : DecidableRel ClassOrder := fun left right =>
  inferInstanceAs (Decidable (left.asU8 ≤ right.asU8))

def knownClasses (payloads : List (List UInt8)) : List CapabilityClass :=
  (payloads.flatMap declaredNames).filterMap CapabilityClass.fromWire

def declaredClassesIn (payloads : List (List UInt8)) : List CapabilityClass :=
  ((knownClasses payloads).foldl pushNew []).insertionSort ClassOrder

def hasUnknownClassNameIn (payloads : List (List UInt8)) : Bool :=
  payloads.any fun payload => (declaredNames payload).any fun name =>
    !name.isEmpty && (CapabilityClass.fromWire name).isNone

def isStreamProfileLine (line : List UInt8) : Bool :=
  decide (streamProfileDeclarationKey <+: line) &&
    (line.drop streamProfileDeclarationKey.length).head? == some 0x3D

def declaresStreamProfile (payloads : List (List UInt8)) : Bool :=
  payloads.any fun payload => (payload.splitOn 0x0A).any isStreamProfileLine

def Declares (payload : List UInt8) (declared : CapabilityClass) : Prop :=
  declared.asStr ∈ declaredNames payload

variable {declared : CapabilityClass} {mapping : CapabilityMapping}

theorem mem_foldl_pushNew (names : List CapabilityClass) :
    ∀ found, declared ∈ names.foldl pushNew found ↔ declared ∈ found ∨ declared ∈ names := by
  induction names with
  | nil => simp
  | cons next rest ih =>
    intro found
    rw [foldl_cons, ih, pushNew, mem_cons]
    split
    · rename_i known
      have member : next ∈ found := by simpa using known
      constructor
      · rintro (earlier | later)
        · exact .inl earlier
        · exact .inr (.inr later)
      · rintro (earlier | rfl | later)
        · exact .inl earlier
        · exact .inl member
        · exact .inr later
    · rw [mem_append, mem_singleton, or_assoc]

theorem mem_knownClasses {payloads : List (List UInt8)} :
    declared ∈ knownClasses payloads ↔ ∃ payload ∈ payloads, Declares payload declared := by
  simp [knownClasses, Declares, CapabilityClass.fromWire_eq_some]

theorem mem_declaredClassesIn {payloads : List (List UInt8)} :
    declared ∈ declaredClassesIn payloads ↔ ∃ payload ∈ payloads, Declares payload declared := by
  rw [declaredClassesIn, mem_insertionSort, mem_foldl_pushNew, mem_knownClasses]
  simp

variable {declared : List CapabilityClass}

theorem mapClasses_eq_ok (remaining : List CapabilityClass) :
    mapClasses declared remaining = .ok mapping ↔
      (∀ next ∈ remaining, next ∈ declared → next.isRepresentable = true) ∧
        mapping = ⟨(remaining.filter declared.contains).filterMap CapabilityClass.rvmBinding,
          remaining.filter fun next => !declared.contains next⟩ := by
  have comm : ∀ {made wanted : CapabilityMapping},
      (Except.ok made : Except CapabilityClass _) = .ok wanted ↔ wanted = made :=
    fun {made wanted} => ⟨fun same => (Except.ok.inj same).symm, fun same => congrArg _ same.symm⟩
  induction remaining generalizing mapping with
  | nil =>
    rw [mapClasses, comm]
    exact ⟨fun same => ⟨fun _ absent => (not_mem_nil absent).elim, same⟩, And.right⟩
  | cons next rest ih =>
    rw [mapClasses, forall_mem_cons]
    by_cases member : next ∈ declared
    · have contains : declared.contains next = true := by simpa using member
      rw [if_pos contains, filter_cons_of_pos contains, filter_cons_of_neg (by simp [member])]
      cases bound : next.rvmBinding with
      | none =>
        have missing : ¬next.isRepresentable = true := by
          simp [CapabilityClass.isRepresentable, bound]
        exact iff_of_false (fun refused => by cases refused) fun spec =>
          missing (spec.1.1 member)
      | some binding =>
        have present : next.isRepresentable = true := by
          simp [CapabilityClass.isRepresentable, bound]
        rw [bind_eq_ok, filterMap_cons_some bound]
        constructor
        · rintro ⟨later, mapped, made⟩
          obtain ⟨representable, rfl⟩ := (ih).mp mapped
          exact ⟨⟨fun _ => present, representable⟩, comm.mp made⟩
        · rintro ⟨⟨_, representable⟩, same⟩
          exact ⟨_, (ih).mpr ⟨representable, rfl⟩, comm.mpr same⟩
    · have contains : ¬declared.contains next = true := by simpa using member
      rw [if_neg contains, filter_cons_of_neg contains,
        filter_cons_of_pos (by simp [member]), bind_eq_ok]
      constructor
      · rintro ⟨later, mapped, made⟩
        obtain ⟨representable, rfl⟩ := (ih).mp mapped
        exact ⟨⟨fun known => absurd known member, representable⟩, comm.mp made⟩
      · rintro ⟨⟨_, representable⟩, same⟩
        exact ⟨_, (ih).mpr ⟨representable, rfl⟩, comm.mpr same⟩

theorem mapDeclared_eq_ok :
    mapDeclared declared = .ok mapping ↔
      (∀ next ∈ declared, next.isRepresentable = true) ∧
        mapping = ⟨(CapabilityClass.all.filter declared.contains).filterMap
          CapabilityClass.rvmBinding,
          CapabilityClass.all.filter fun next => !declared.contains next⟩ := by
  rw [mapDeclared, mapClasses_eq_ok]
  constructor
  · exact fun spec => ⟨fun next => spec.1 next (CapabilityClass.mem_all next), spec.2⟩
  · exact fun spec => ⟨fun next _ => spec.1 next, spec.2⟩

def CapabilityMapping.isGranted (mapping : CapabilityMapping) (asked : CapabilityClass) : Bool :=
  mapping.granted.any fun binding => binding.declared = asked

theorem isGranted_mapDeclared (mapped : mapDeclared declared = .ok mapping)
    (asked : CapabilityClass) : mapping.isGranted asked = true ↔ asked ∈ declared := by
  obtain ⟨representable, rfl⟩ := mapDeclared_eq_ok.mp mapped
  simp only [CapabilityMapping.isGranted, any_eq_true, mem_filterMap, mem_filter, decide_eq_true_eq]
  constructor
  · rintro ⟨binding, ⟨next, ⟨_, member⟩, bound⟩, rfl⟩
    rw [CapabilityClass.rvmBinding_declared bound]
    simpa using member
  · intro member
    obtain ⟨binding, bound⟩ := Option.isSome_iff_exists.mp (representable asked member)
    exact ⟨binding, ⟨asked, ⟨CapabilityClass.mem_all asked, by simpa using member⟩, bound⟩,
      CapabilityClass.rvmBinding_declared bound⟩

end Rvm.Rvf
