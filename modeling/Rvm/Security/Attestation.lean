import Rvm.Foundation.Bytes
import Rvm.Foundation.Digests

/-!
Owns the attestation chain of `rvm-security/src/attestation.rs` with SHA-256, over
an arbitrary hash function, and what its report commits to.
-/

namespace Rvm.Security

open Foundation List Octets

def maxAttestationEntries : Nat := 64

structure AttestationEntry where
  sequence : Nat
  hash : Octets 32
  /-- 0 = boot, 1 = runtime witness. -/
  sourceTag : Nat
deriving DecidableEq

/-- What an entry records of a measurement. -/
def AttestationEntry.measured (entry : AttestationEntry) : Octets 32 × Nat :=
  (entry.hash, entry.sourceTag)

/-- The recorded entries; the chain has room for a fixed number. -/
structure AttestationChain where
  entries : List AttestationEntry
  bounded : entries.length ≤ maxAttestationEntries
  chainHash : Octets 32

structure AttestationReport where
  entryCount : Nat
  chainRoot : Octets 32
  bootMeasurementCount : Nat
  runtimeWitnessCount : Nat
deriving DecidableEq

namespace AttestationChain

def new : AttestationChain := ⟨[], Nat.zero_le _, zero 32⟩

variable (sha256 : List UInt8 → Octets 32)

def extendChainHash (chainHash hash : Octets 32) : Octets 32 :=
  sha256 (chainHash.toList ++ hash.toList)

def addEntry (here : AttestationChain) (hash : Octets 32) (sourceTag : Nat) :
    Bool × AttestationChain :=
  if room : here.entries.length < maxAttestationEntries then
    (true,
      { entries := here.entries ++ [⟨here.entries.length, hash, sourceTag⟩]
        bounded := by
          rw [length_append]
          exact room
        chainHash := extendChainHash sha256 here.chainHash hash })
  else (false, here)

def addBootMeasurement (here : AttestationChain) (hash : Octets 32) : Bool × AttestationChain :=
  addEntry sha256 here hash 0

def addRuntimeWitness (here : AttestationChain) (hash : Octets 32) : Bool × AttestationChain :=
  addEntry sha256 here hash 1

def bootMeasurementCount (here : AttestationChain) : Nat :=
  here.entries.countP (·.sourceTag = 0)

def runtimeWitnessCount (here : AttestationChain) : Nat :=
  here.entries.countP (·.sourceTag = 1)

def generateAttestationReport (here : AttestationChain) : AttestationReport where
  entryCount := here.entries.length
  chainRoot := here.chainHash
  bootMeasurementCount := here.bootMeasurementCount
  runtimeWitnessCount := here.runtimeWitnessCount

/-- A call that adds to the chain. -/
inductive Addition where
  | boot (hash : Octets 32)
  | runtime (hash : Octets 32)
deriving DecidableEq

def Addition.hash : Addition → Octets 32
  | .boot hash | .runtime hash => hash

def Addition.sourceTag : Addition → Nat
  | .boot _ => 0
  | .runtime _ => 1

def add (here : AttestationChain) : Addition → Bool × AttestationChain
  | .boot hash => addBootMeasurement sha256 here hash
  | .runtime hash => addRuntimeWitness sha256 here hash

def extended (here : AttestationChain) (additions : List Addition) : AttestationChain :=
  additions.foldl (fun here addition => (add sha256 here addition).2) here

/-- The additions that returned `true`. -/
def accepted (here : AttestationChain) : List Addition → List Addition
  | [] => []
  | addition :: rest =>
    let added := add sha256 here addition
    if added.1 then addition :: accepted added.2 rest else accepted added.2 rest

variable {sha256 : List UInt8 → Octets 32} {here : AttestationChain}
  {additions first second : List Addition}

theorem add_spec (here : AttestationChain) (addition : Addition) :
    (add sha256 here addition).1 = true ∧
        (add sha256 here addition).2.entries =
          here.entries ++ [⟨here.entries.length, addition.hash, addition.sourceTag⟩] ∧
        (add sha256 here addition).2.chainHash =
          extendChainHash sha256 here.chainHash addition.hash ∨
      (add sha256 here addition).1 = false ∧ (add sha256 here addition).2 = here := by
  have either : add sha256 here addition =
      addEntry sha256 here addition.hash addition.sourceTag := by cases addition <;> rfl
  rw [either]
  unfold addEntry
  split
  · exact .inl ⟨rfl, rfl, rfl⟩
  · exact .inr ⟨rfl, rfl⟩

/-- What an addition supplies of an entry. -/
def Addition.measured (addition : Addition) : Octets 32 × Nat :=
  (addition.hash, addition.sourceTag)

theorem extended_spec (here : AttestationChain) (additions : List Addition) :
    (extended sha256 here additions).entries.map AttestationEntry.measured =
        here.entries.map AttestationEntry.measured ++
          (accepted sha256 here additions).map Addition.measured ∧
      (extended sha256 here additions).chainHash =
        chainOf (extendChainHash sha256) here.chainHash
          ((accepted sha256 here additions).map Addition.hash) := by
  induction additions generalizing here with
  | nil => simp [extended, accepted, chainOf]
  | cons addition rest ih =>
    obtain ⟨entries, chainHash⟩ := ih (add sha256 here addition).2
    unfold accepted
    rcases add_spec here addition with ⟨accepted, added, hashed⟩ | ⟨refused, same⟩
    · rw [if_pos accepted, map_cons, map_cons]
      rw [added, map_append, append_assoc] at entries
      rw [hashed] at chainHash
      exact ⟨entries, chainHash⟩
    · rw [if_neg (by simp [refused])]
      rw [same] at entries chainHash ⊢
      exact ⟨by rw [← entries, extended, foldl_cons, same]; rfl,
        by rw [← chainHash, extended, foldl_cons, same]; rfl⟩

theorem entries_of_new (additions : List Addition) :
    (extended sha256 new additions).entries.map AttestationEntry.measured =
      (accepted sha256 new additions).map Addition.measured :=
  (extended_spec new additions).1

def reportOf (sha256 : List UInt8 → Octets 32) (additions : List Addition) : AttestationReport :=
  (extended sha256 new additions).generateAttestationReport

def CollisionFree (sha256 : List UInt8 → Octets 32) (first second : List Addition) : Prop :=
  Set.InjOn sha256
    { message | ∃ additions chainHash hash, additions ∈ [first, second] ∧
      ChainInput (extendChainHash sha256) (zero 32)
        ((accepted sha256 new additions).map Addition.hash) (chainHash, hash) ∧
      message = chainHash.toList ++ hash.toList }

/-- The same hashes in the same order, as many of them from boot, and yet from
different sources. -/
def SourcesExchanged (first second : List Addition) : Prop :=
  first.map Addition.hash = second.map Addition.hash ∧
    first.countP (·.sourceTag = 0) = second.countP (·.sourceTag = 0) ∧ first ≠ second

theorem entryCount_eq : (reportOf sha256 additions).entryCount =
    (accepted sha256 new additions).length := by
  have lengths := congrArg List.length (@entries_of_new sha256 additions)
  rwa [length_map, length_map] at lengths

theorem countP_sourceTag (tag : Nat) :
    (extended sha256 new additions).entries.countP (·.sourceTag = tag) =
      (accepted sha256 new additions).countP (·.sourceTag = tag) := by
  have counts := congrArg (List.countP (·.2 = tag)) (@entries_of_new sha256 additions)
  rwa [countP_map, countP_map] at counts

theorem chainRoot_eq : (reportOf sha256 additions).chainRoot =
    chainOf (extendChainHash sha256) (zero 32)
      ((accepted sha256 new additions).map Addition.hash) :=
  (extended_spec new additions).2

theorem countP_runtime (additions : List Addition) :
    additions.countP (·.sourceTag = 1) = additions.length - additions.countP (·.sourceTag = 0) := by
  rw [length_eq_countP_add_countP (·.sourceTag = 0), Nat.add_sub_cancel_left]
  apply countP_congr
  intro addition _
  cases addition <;> simp [Addition.sourceTag]

theorem CollisionFree.inputs (free : CollisionFree sha256 first second)
    (left right : Octets 32 × Octets 32)
    (one : ChainInput (extendChainHash sha256) (zero 32)
      ((accepted sha256 new first).map Addition.hash) left)
    (other : ChainInput (extendChainHash sha256) (zero 32)
      ((accepted sha256 new second).map Addition.hash) right)
    (same : extendChainHash sha256 left.1 left.2 = extendChainHash sha256 right.1 right.2) :
    left = right := by
  have messages := free
    ⟨first, left.1, left.2, mem_cons_self, one, rfl⟩
    ⟨second, right.1, right.2, mem_cons_of_mem _ mem_cons_self, other, rfl⟩ same
  obtain ⟨digests, hashes⟩ := append_inj messages
    (by rw [List.Vector.toList_length, List.Vector.toList_length])
  exact Prod.ext (List.Vector.eq _ _ digests) (List.Vector.eq _ _ hashes)

/-- A report determines the accepted hashes, their order and how many of them were
measured at boot, and is determined by these. -/
theorem report_eq_iff (free : CollisionFree sha256 first second) :
    reportOf sha256 first = reportOf sha256 second ↔
      (accepted sha256 new first).map Addition.hash =
        (accepted sha256 new second).map Addition.hash ∧
      (accepted sha256 new first).countP (·.sourceTag = 0) =
        (accepted sha256 new second).countP (·.sourceTag = 0) := by
  constructor
  · intro same
    have counts := congrArg AttestationReport.entryCount same
    have roots := congrArg AttestationReport.chainRoot same
    have boots := congrArg AttestationReport.bootMeasurementCount same
    rw [entryCount_eq, entryCount_eq] at counts
    rw [chainRoot_eq, chainRoot_eq] at roots
    refine ⟨chainOf_injective free.inputs (by simpa using counts) roots, ?_⟩
    rw [← countP_sourceTag, ← countP_sourceTag]
    exact boots
  · rintro ⟨hashes, boots⟩
    have lengths : (accepted sha256 new first).length = (accepted sha256 new second).length := by
      simpa using congrArg List.length hashes
    have counts : (reportOf sha256 first).entryCount = (reportOf sha256 second).entryCount := by
      rw [entryCount_eq, entryCount_eq, lengths]
    have roots : (reportOf sha256 first).chainRoot = (reportOf sha256 second).chainRoot := by
      rw [chainRoot_eq, chainRoot_eq, hashes]
    unfold reportOf generateAttestationReport at counts roots ⊢
    rw [AttestationReport.mk.injEq]
    refine ⟨counts, roots, ?_, ?_⟩
    · rw [bootMeasurementCount, bootMeasurementCount, countP_sourceTag, countP_sourceTag, boots]
    · rw [runtimeWitnessCount, runtimeWitnessCount, countP_sourceTag, countP_sourceTag,
        countP_runtime, countP_runtime, lengths, boots]

theorem Addition.measured_injective : Function.Injective Addition.measured := by
  intro one other same
  cases one <;> cases other <;> simp_all [measured, hash, sourceTag]

/-- One report comes from one sequence of hashes and sources, exactly where the runs
do not exchange sources. -/
theorem reportCommitsToMeasurements (free : CollisionFree sha256 first second) :
    (reportOf sha256 first = reportOf sha256 second →
        (extended sha256 new first).entries.map AttestationEntry.measured =
          (extended sha256 new second).entries.map AttestationEntry.measured) ↔
      ¬SourcesExchanged (accepted sha256 new first) (accepted sha256 new second) := by
  rw [report_eq_iff free, entries_of_new, entries_of_new,
    (List.map_injective_iff.mpr Addition.measured_injective).eq_iff]
  constructor
  · rintro commits ⟨hashes, boots, differ⟩
    exact differ (commits ⟨hashes, boots⟩)
  · rintro kept ⟨hashes, boots⟩
    exact Decidable.not_not.mp fun differ => kept ⟨hashes, boots, differ⟩

def sampleDigest (message : List UInt8) : Octets 32 :=
  littleEndianOctets 32 (littleEndianValue (message ++ [1]) % (2 ^ 256 - 189))

def bootLoader : Octets 32 := List.Vector.replicate 32 1

def intruder : Octets 32 := List.Vector.replicate 32 2

theorem collisionFree_sample {first second : List Addition}
    (one : (accepted sampleDigest new first).map Addition.hash = [bootLoader, intruder])
    (other : (accepted sampleDigest new second).map Addition.hash = [bootLoader, intruder]) :
    CollisionFree sampleDigest first second := by
  have messages : ∀ message ∈ { message | ∃ additions chainHash hash, additions ∈ [first, second] ∧
      ChainInput (extendChainHash sampleDigest) (zero 32)
        ((accepted sampleDigest new additions).map Addition.hash) (chainHash, hash) ∧
      message = chainHash.toList ++ hash.toList },
      message = (zero 32).toList ++ bootLoader.toList ∨
        message = (extendChainHash sampleDigest (zero 32) bootLoader).toList ++
          intruder.toList := by
    rintro message ⟨additions, chainHash, hash, among, input, rfl⟩
    have hashes : (accepted sampleDigest new additions).map Addition.hash =
        [bootLoader, intruder] := by
      rcases mem_pair.mp among with rfl | rfl
      · exact one
      · exact other
    rw [hashes, chainInput_cons, chainInput_cons] at input
    rcases input with same | same | none
    · obtain ⟨rfl, rfl⟩ := Prod.mk.inj same
      exact .inl rfl
    · obtain ⟨rfl, rfl⟩ := Prod.mk.inj same
      exact .inr rfl
    · exact (chainInput_nil none).elim
  have distinct : sampleDigest ((zero 32).toList ++ bootLoader.toList) ≠
      sampleDigest ((extendChainHash sampleDigest (zero 32) bootLoader).toList ++
        intruder.toList) := by decide +kernel
  intro left inLeft right inRight same
  rcases messages left inLeft with rfl | rfl <;> rcases messages right inRight with rfl | rfl
  · rfl
  · exact (distinct same).elim
  · exact (distinct same.symm).elim
  · rfl

theorem reportCommitsToMeasurements_intruder :
    ((reportOf sampleDigest [.boot bootLoader, .runtime intruder] =
        reportOf sampleDigest [.boot bootLoader, .boot intruder] →
      (extended sampleDigest new [.boot bootLoader, .runtime intruder]).entries.map
          AttestationEntry.measured =
        (extended sampleDigest new [.boot bootLoader, .boot intruder]).entries.map
          AttestationEntry.measured) ↔
      ¬SourcesExchanged (accepted sampleDigest new [.boot bootLoader, .runtime intruder])
        (accepted sampleDigest new [.boot bootLoader, .boot intruder])) ∧
    ¬SourcesExchanged (accepted sampleDigest new [.boot bootLoader, .runtime intruder])
      (accepted sampleDigest new [.boot bootLoader, .boot intruder]) :=
  ⟨reportCommitsToMeasurements (collisionFree_sample rfl rfl),
    fun exchanged => absurd exchanged.2.1 (by decide)⟩

/-- The same report, with the boot measurement presented as the runtime witness. -/
theorem exchangedSources :
    CollisionFree sampleDigest [.boot bootLoader, .runtime intruder]
        [.runtime bootLoader, .boot intruder] ∧
      reportOf sampleDigest [.boot bootLoader, .runtime intruder] =
        reportOf sampleDigest [.runtime bootLoader, .boot intruder] ∧
      (extended sampleDigest new [.boot bootLoader, .runtime intruder]).entries.map
          AttestationEntry.measured ≠
        (extended sampleDigest new [.runtime bootLoader, .boot intruder]).entries.map
          AttestationEntry.measured :=
  ⟨collisionFree_sample rfl rfl, rfl, by decide⟩

end AttestationChain

end Rvm.Security
