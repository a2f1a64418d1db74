import Rvm.Foundation.Bytes
import Rvm.Foundation.Text

/-!
Owns the parts of a `ruv://` name (`rvm-context/src/uri.rs`), each with the check that
constructs it. Checks on bytes are made on characters: they accept the same texts, since a
character outside ASCII fails each of them.
-/

namespace Rvm.Context

open Foundation

def scheme : List Char := ['r', 'u', 'v', ':', '/', '/']
def maxUriBytes : Nat := 2048
def maxAuthorityBytes : Nat := 253
def maxDnsLabelBytes : Nat := 63
def maxIdentifierBytes : Nat := 63
def maxPathSegmentBytes : Nat := 128
def maxPathSegments : Nat := 32
def maxPathBytes : Nat := 1024

/-- A failure to parse or construct a canonical `ruv://` URI. -/
inductive UriError where
  | uriTooLong | nonAscii | invalidScheme | percentEncodingNotAllowed | fragmentNotAllowed
  | credentialsNotAllowed | portNotAllowed | invalidAuthority | invalidTenant | invalidSubjectKind
  | invalidSubjectId | invalidCollection | missingComponent | emptyPathSegment | trailingSlash
  | dotSegment | invalidPathSegment | tooManyPathSegments | pathTooLong | invalidQuery
  | unknownQueryKey | duplicateQueryKey | queryOrder | invalidRevision | invalidView
  | revisionRequired
deriving DecidableEq, Repr

/-- The first of the forbidden kinds that occurs. -/
def rejectForbiddenOctets (value : List Char) : Except UriError Unit :=
  if value.any fun char => !isAscii char then .error .nonAscii
  else if value.contains '%' then .error .percentEncodingNotAllowed
  else if value.contains '#' then .error .fragmentNotAllowed
  else .ok ()

structure Checked (check : List Char → Except UriError Unit) where
  text : List Char
  passed : check text = .ok ()
deriving DecidableEq

namespace Checked

variable {check : List Char → Except UriError Unit}

/-- Constructs without scanning for forbidden octets again. -/
def newPrevalidated (value : List Char) : Except UriError (Checked check) :=
  match passed : check value with
  | .ok () => .ok ⟨value, passed⟩
  | .error e => .error e

def new (value : List Char) : Except UriError (Checked check) :=
  match rejectForbiddenOctets value with
  | .ok () => newPrevalidated value
  | .error e => .error e

theorem ext {first second : Checked check} (same : first.text = second.text) : first = second := by
  cases first
  cases second
  cases same
  rfl

theorem newPrevalidated_eq_ok {value : List Char} {part : Checked check} :
    newPrevalidated value = .ok part ↔ part.text = value := by
  unfold newPrevalidated
  constructor
  · intro made
    split at made
    · cases made
      rfl
    · cases made
  · rintro rfl
    have passed := part.passed
    split
    · rfl
    · rename_i e failed
      rw [passed] at failed
      cases failed

end Checked

def isAsciiLowercaseOrDigit (char : Char) : Bool := char.isLower || char.isDigit

/-- A nonempty lowercase label that neither begins nor ends with a hyphen. -/
def isLabel (maxBytes : Nat) (value : List Char) : Bool :=
  !value.isEmpty && decide (byteLength value ≤ maxBytes) &&
    value.head?.any isAsciiLowercaseOrDigit && value.getLast?.any isAsciiLowercaseOrDigit &&
    value.all fun char => isAsciiLowercaseOrDigit char || char == '-'

def isSlug (value : List Char) : Bool := isLabel maxIdentifierBytes value

def checkAuthority (value : List Char) : Except UriError Unit :=
  if value.contains '@' then .error .credentialsNotAllowed
  else if value.contains ':' then .error .portNotAllowed
  else if value.isEmpty || decide (byteLength value > maxAuthorityBytes) then
    .error .invalidAuthority
  else if (value.splitOn '.').all (isLabel maxDnsLabelBytes) then .ok ()
  else .error .invalidAuthority

def checkTenant (value : List Char) : Except UriError Unit :=
  if isSlug value then .ok () else .error .invalidTenant

def checkSubjectId (value : List Char) : Except UriError Unit :=
  if isSlug value then .ok () else .error .invalidSubjectId

def isUnreserved (char : Char) : Bool :=
  char.isAlphanum || char == '-' || char == '.' || char == '_' || char == '~'

def checkPathSegment (value : List Char) : Except UriError Unit :=
  if value.isEmpty then .error .emptyPathSegment
  else if value = ['.'] ∨ value = ['.', '.'] then .error .dotSegment
  else if decide (byteLength value > maxPathSegmentBytes) || !value.all isUnreserved then
    .error .invalidPathSegment
  else .ok ()

/-- A canonical lowercase DNS authority without credentials or a port. -/
abbrev Authority := Checked checkAuthority

abbrev TenantId := Checked checkTenant

abbrev SubjectId := Checked checkSubjectId

/-- One case-sensitive segment below a collection. -/
abbrev PathSegment := Checked checkPathSegment

inductive SubjectKind where
  | agent | user | service | team
deriving DecidableEq, Ord, Repr

def SubjectKind.asStr : SubjectKind → List Char
  | .agent => "agent".toList
  | .user => "user".toList
  | .service => "service".toList
  | .team => "team".toList

def SubjectKind.fromStr (value : List Char) : Except UriError SubjectKind :=
  if value = "agent".toList then .ok .agent
  else if value = "user".toList then .ok .user
  else if value = "service".toList then .ok .service
  else if value = "team".toList then .ok .team
  else .error .invalidSubjectKind

inductive Collection where
  | memory | resources | skills
deriving DecidableEq, Ord, Repr

def Collection.asStr : Collection → List Char
  | .memory => "memory".toList
  | .resources => "resources".toList
  | .skills => "skills".toList

def Collection.fromStr (value : List Char) : Except UriError Collection :=
  if value = "memory".toList then .ok .memory
  else if value = "resources".toList then .ok .resources
  else if value = "skills".toList then .ok .skills
  else .error .invalidCollection

inductive ProgressiveView where
  | abstract | overview | content
deriving DecidableEq, Ord, Repr

def ProgressiveView.asStr : ProgressiveView → List Char
  | .abstract => "abstract".toList
  | .overview => "overview".toList
  | .content => "content".toList

def ProgressiveView.fromStr (value : List Char) : Except UriError ProgressiveView :=
  if value = "abstract".toList then .ok .abstract
  else if value = "overview".toList then .ok .overview
  else if value = "content".toList then .ok .content
  else .error .invalidView

theorem SubjectKind.fromStr_eq_ok {value : List Char} {kind : SubjectKind} :
    SubjectKind.fromStr value = .ok kind ↔ kind.asStr = value := by
  constructor
  · intro parsed
    unfold SubjectKind.fromStr at parsed
    repeat' split at parsed
    all_goals cases parsed
    all_goals exact Eq.symm (by assumption)
  · rintro rfl
    cases kind <;> decide

theorem Collection.fromStr_eq_ok {value : List Char} {collection : Collection} :
    Collection.fromStr value = .ok collection ↔ collection.asStr = value := by
  constructor
  · intro parsed
    unfold Collection.fromStr at parsed
    repeat' split at parsed
    all_goals cases parsed
    all_goals exact Eq.symm (by assumption)
  · rintro rfl
    cases collection <;> decide

theorem ProgressiveView.fromStr_eq_ok {value : List Char} {view : ProgressiveView} :
    ProgressiveView.fromStr value = .ok view ↔ view.asStr = value := by
  constructor
  · intro parsed
    unfold ProgressiveView.fromStr at parsed
    repeat' split at parsed
    all_goals cases parsed
    all_goals exact Eq.symm (by assumption)
  · rintro rfl
    cases view <;> decide

/-- A typed subject identity. -/
structure Subject where
  kind : SubjectKind
  id : SubjectId
deriving DecidableEq

/-- A whole-container SHA-256 identity. -/
structure Revision where
  bytes : Octets 32
deriving DecidableEq

namespace Revision

/-- What precedes the digits. -/
def algorithm : List Char := "sha256:".toList

def toText (revision : Revision) : List Char := algorithm ++ hexText revision.bytes.toList

def fromStr (value : List Char) : Except UriError Revision :=
  match stripText algorithm value with
  | none => .error .invalidRevision
  | some hex =>
    if digits : hex.length = 64 ∧ hex.all isHexDigit = true then
      .ok ⟨⟨hexBytes hex, by rw [hexBytes_length, digits.1]⟩⟩
    else .error .invalidRevision

theorem fromStr_eq_ok {value : List Char} {revision : Revision} :
    fromStr value = .ok revision ↔ revision.toText = value := by
  constructor
  · intro parsed
    unfold fromStr at parsed
    split at parsed
    · cases parsed
    · rename_i hex stripped
      split at parsed
      · rename_i digits
        cases parsed
        rw [stripText_eq_some.mp stripped]
        have spelled := hexText_hexBytes (List.all_eq_true.mp digits.2) (by rw [digits.1])
        exact congrArg (algorithm ++ ·) spelled
      · cases parsed
  · rintro rfl
    have length : (hexText revision.bytes.toList).length = 64 := by
      rw [hexText_length, revision.bytes.toList_length]
    have digits : (hexText revision.bytes.toList).all isHexDigit = true :=
      List.all_eq_true.mpr (isHexDigit_hexText _)
    unfold fromStr
    rw [toText, stripText_eq_some.mpr rfl]
    dsimp only
    rw [dif_pos ⟨length, digits⟩]
    congr 2
    exact Subtype.ext (hexBytes_hexText _)

end Revision

def sampleHost : Authority := ⟨['a'], by decide⟩

def sampleTenant : TenantId := ⟨['t'], by decide⟩

def sampleSubject : Subject := ⟨.user, ⟨['u'], by decide⟩⟩

def sampleSegment : PathSegment := ⟨['S'], by decide⟩

end Rvm.Context
