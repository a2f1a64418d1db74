import Rvm.Context.CanonicalUri
import Rvm.Foundation.Postconditions

/-!
Owns the grammar of `ruv://` text (`rvm-context/src/uri.rs`), and that the parser accepts
exactly its texts. The parser is modelled once more here with its fixed array of components,
whose indices panic when out of range.
-/

namespace Rvm.Context

open Foundation Foundation.Call List Checked

/-! ### The component array -/

/-- The local variables of the loop over the components. -/
structure ComponentScan where
  components : List (List Char)
  componentCount : Nat
  hasEmptyComponent : Bool

namespace ComponentScan

def start : ComponentScan := ⟨List.replicate (5 + maxPathSegments) [], 0, false⟩

def storeAt (components : List (List Char)) (index : Nat) (component : List Char) :
    Option (List (List Char)) :=
  if index < components.length then some (components.set index component) else none

/-- One round of the loop: what no longer fits the array is only counted. -/
def visit (scan : ComponentScan) (component : List Char) : Option ComponentScan := do
  let components ←
    if scan.componentCount < scan.components.length then
      storeAt scan.components scan.componentCount component
    else some scan.components
  return ⟨components, scan.componentCount + 1, scan.hasEmptyComponent || component.isEmpty⟩

def slice (scan : ComponentScan) (start stop : Nat) : Option (List (List Char)) :=
  if start ≤ stop ∧ stop ≤ scan.components.length then
    some ((scan.components.take stop).drop start)
  else none

end ComponentScan

/-- The path segments, which stand behind the first five components. -/
def ComponentScan.path (scan : ComponentScan) : Call UriError Unit (List PathSegment) := do
  let pathCount := scan.componentCount - 5
  throwIf (pathCount > maxPathSegments) .tooManyPathSegments
  let pathParts ← orPanic (scan.slice 5 scan.componentCount)
  throwIf ((pathParts.map byteLength).sum + (pathCount - 1) > maxPathBytes) .pathTooLong
  orRefusal (pathParts.mapM newPrevalidated)

/-- The hierarchy read through the array. -/
def parseComponents (hierarchy : List Char) : Call UriError Unit RuvUri := do
  throwIf (hierarchy.getLast? = some '/') .trailingSlash
  let scan ← orPanic ((hierarchy.splitOn '/').foldlM ComponentScan.visit .start)
  throwIf (scan.componentCount < 5) .missingComponent
  throwIf (scan.hasEmptyComponent = true) .emptyPathSegment
  let authority ← orRefusal (newPrevalidated (← orPanic scan.components[0]?))
  let tenant ← orRefusal (newPrevalidated (← orPanic scan.components[1]?))
  let kind ← orRefusal (SubjectKind.fromStr (← orPanic scan.components[2]?))
  let id ← orRefusal (newPrevalidated (← orPanic scan.components[3]?))
  let collection ← orRefusal (Collection.fromStr (← orPanic scan.components[4]?))
  let path ← scan.path
  return ⟨authority, tenant, ⟨kind, id⟩, collection, path, none, none⟩

/-- The parser read through the array. -/
def parseIndexed (value : List Char) : Call UriError Unit RuvUri := do
  throwIf (byteLength value > maxUriBytes) .uriTooLong
  orRefusal (rejectForbiddenOctets value)
  let afterScheme ← orThrow (stripText scheme value) .invalidScheme
  let parts := splitQuery afterScheme
  let uri ← parseComponents parts.1
  let options ← orRefusal (parseQuery parts.2)
  let uri : RuvUri := ⟨uri.authority, uri.tenant, uri.subject, uri.collection, uri.path,
    options.1, options.2⟩
  orRefusal (validateComplete uri)
  return uri

namespace ComponentScan

/-- The array after the loop has visited some components: they stand at its front, as far as
they fit. -/
def after (visited : List (List Char)) : ComponentScan where
  components :=
    (visited ++ List.replicate (5 + maxPathSegments) []).take (5 + maxPathSegments)
  componentCount := visited.length
  hasEmptyComponent := visited.any List.isEmpty

theorem components_after {visited : List (List Char)}
    (fits : visited.length ≤ 5 + maxPathSegments) :
    (after visited).components =
      visited ++ List.replicate (5 + maxPathSegments - visited.length) [] := by
  rw [after, take_append, take_of_length_le fits, take_replicate, Nat.min_eq_left (Nat.sub_le _ _)]

theorem length_components_after (visited : List (List Char)) :
    (after visited).components.length = 5 + maxPathSegments := by
  simp [after]

theorem visit_after (visited : List (List Char)) (component : List Char) :
    (after visited).visit component = some (after (visited ++ [component])) := by
  have count : visited.length + 1 = (visited ++ [component]).length := by simp
  have empty : (visited.any List.isEmpty || component.isEmpty) =
      (visited ++ [component]).any List.isEmpty := by simp
  unfold visit
  by_cases fits : (after visited).componentCount < (after visited).components.length
  · rw [if_pos fits, storeAt, if_pos fits]
    rw [length_components_after] at fits
    have here : visited.length < 5 + maxPathSegments := fits
    have stored : (after visited).components.set visited.length component =
        (after (visited ++ [component])).components := by
      have room : 5 + maxPathSegments - visited.length =
          5 + maxPathSegments - (visited.length + 1) + 1 := by omega
      rw [components_after here.le, components_after (count ▸ here), ← count, room,
        set_append_right _ _ (Nat.le_refl _), Nat.sub_self, replicate_succ,
        set_cons_zero, append_assoc]
      rfl
    change some (ComponentScan.mk ((after visited).components.set visited.length component)
      (visited.length + 1) (visited.any List.isEmpty || component.isEmpty)) = _
    rw [stored, count, empty]
    rfl
  · rw [if_neg fits]
    rw [length_components_after] at fits
    have full : 5 + maxPathSegments ≤ visited.length := Nat.not_lt.mp fits
    have kept : (after visited).components = (after (visited ++ [component])).components := by
      unfold after
      rw [append_assoc, take_append_of_le_length full, take_append_of_le_length full]
    change some (ComponentScan.mk (after visited).components
      (visited.length + 1) (visited.any List.isEmpty || component.isEmpty)) = _
    rw [kept, count, empty]
    rfl

theorem foldlM_visit (components visited : List (List Char)) :
    components.foldlM visit (after visited) = some (after (visited ++ components)) := by
  induction components generalizing visited with
  | nil => rw [append_nil]; rfl
  | cons component rest ih =>
    rw [foldlM_cons, visit_after, Option.bind_eq_bind, Option.bind_some, ih, append_assoc]
    rfl

theorem start_eq : start = after [] := by
  unfold start after
  simp

theorem slice_after {front path : List (List Char)} (five : front.length = 5)
    (fits : path.length ≤ maxPathSegments) :
    (after (front ++ path)).slice 5 (after (front ++ path)).componentCount = some path := by
  have count : (after (front ++ path)).componentCount = (front ++ path).length := rfl
  have long : (front ++ path).length = 5 + path.length := by rw [length_append, five]
  have within : (front ++ path).length ≤ 5 + maxPathSegments := by omega
  rw [slice, length_components_after, count, if_pos ⟨by omega, within⟩, components_after within,
    take_left, drop_left' five]

end ComponentScan

theorem getElem?_after {components : List (List Char)} {i : Nat} {component : List Char}
    (found : components[i]? = some component) (front : i < 5) :
    (ComponentScan.after components).components[i]? = some component := by
  have inside : i < components.length := (List.getElem?_eq_some_iff.mp found).1
  have room : i < 5 + maxPathSegments := by
    unfold maxPathSegments
    omega
  rw [ComponentScan.after, List.getElem?_take_of_lt room, List.getElem?_append_left inside, found]

theorem computes_path {front path : List (List Char)} (five : front.length = 5) :
    Computes (ComponentScan.after (front ++ path)).path (parsePath path) := by
  have count : (ComponentScan.after (front ++ path)).componentCount - 5 = path.length := by
    change (front ++ path).length - 5 = path.length
    rw [length_append, five, Nat.add_sub_cancel_left]
  unfold ComponentScan.path parsePath
  rw [count]
  refine computes_throwIf fun short => ?_
  refine computes_orPanic (ComponentScan.slice_after five (Nat.not_lt.mp short)) ?_
  exact computes_throwIf fun _ => computes_orRefusal _

theorem computes_parseComponents (hierarchy : List Char) :
    Computes (parseComponents hierarchy) (parseHierarchy hierarchy) := by
  have scanned := ComponentScan.foldlM_visit (hierarchy.splitOn '/') []
  rw [← ComponentScan.start_eq, nil_append] at scanned
  unfold parseComponents parseHierarchy
  refine computes_throwIf fun _ => computes_orPanic scanned ?_
  generalize hierarchy.splitOn '/' = components
  rcases components with
    _ | ⟨first, _ | ⟨second, _ | ⟨third, _ | ⟨fourth, _ | ⟨fifth, path⟩⟩⟩⟩⟩
  · exact computes_refused (by decide)
  · exact computes_refused (Nat.le_add_left 2 3)
  · exact computes_refused (Nat.le_add_left 3 2)
  · exact computes_refused (Nat.le_add_left 4 1)
  · exact computes_refused (Nat.le_refl 5)
  have enough : ¬(ComponentScan.after (first :: second :: third :: fourth :: fifth :: path)
      ).componentCount < 5 := Nat.not_lt.mpr (Nat.le_add_left 5 path.length)
  refine computes_passed enough (computes_throwIf fun _ => ?_)
  refine computes_orPanic (getElem?_after rfl (by decide)) ?_
  refine computes_bind (computes_orRefusal _) fun authority _ => ?_
  refine computes_orPanic (getElem?_after rfl (by decide)) ?_
  refine computes_bind (computes_orRefusal _) fun tenant _ => ?_
  refine computes_orPanic (getElem?_after rfl (by decide)) ?_
  refine computes_bind (computes_orRefusal _) fun kind _ => ?_
  refine computes_orPanic (getElem?_after rfl (by decide)) ?_
  refine computes_bind (computes_orRefusal _) fun id _ => ?_
  refine computes_orPanic (getElem?_after rfl (by decide)) ?_
  refine computes_bind (computes_orRefusal _) fun collection _ => ?_
  exact computes_bind (@computes_path [first, second, third, fourth, fifth] path rfl)
    fun _ _ => computes_return

theorem computes_parseIndexed (value : List Char) :
    Computes (parseIndexed value) (RuvUri.fromStr value) := by
  unfold parseIndexed RuvUri.fromStr
  refine computes_throwIf fun _ => computes_bind (computes_orRefusal _) fun _ _ => ?_
  cases stripText scheme value with
  | none => rfl
  | some afterScheme =>
    refine computes_bind (computes_parseComponents _) fun uri _ => ?_
    refine computes_bind (computes_orRefusal _) fun options _ => ?_
    exact computes_bind (computes_orRefusal _) fun _ _ => computes_return

/-! ### Character classes -/

def LowercaseOrDigit (char : Char) : Prop :=
  'a' ≤ char ∧ char ≤ 'z' ∨ '0' ≤ char ∧ char ≤ '9'

instance : DecidablePred LowercaseOrDigit := fun char =>
  inferInstanceAs (Decidable ('a' ≤ char ∧ char ≤ 'z' ∨ '0' ≤ char ∧ char ≤ '9'))

def Unreserved (char : Char) : Prop :=
  LowercaseOrDigit char ∨ 'A' ≤ char ∧ char ≤ 'Z' ∨ char ∈ ['-', '.', '_', '~']

def HexDigit (char : Char) : Prop := '0' ≤ char ∧ char ≤ '9' ∨ 'a' ≤ char ∧ char ≤ 'f'

theorem isAsciiLowercaseOrDigit_iff {char : Char} :
    isAsciiLowercaseOrDigit char = true ↔ LowercaseOrDigit char := by
  have lower : char.isLower = (decide ('a' ≤ char) && decide (char ≤ 'z')) := rfl
  simp [isAsciiLowercaseOrDigit, LowercaseOrDigit, lower, Char.isDigit, Char.le_def]

theorem isUnreserved_iff {char : Char} : isUnreserved char = true ↔ Unreserved char := by
  have letter : char.isAlpha = (decide ('A'.val ≤ char.val ∧ char.val ≤ 'Z'.val) ||
      (decide ('a'.val ≤ char.val) && decide (char.val ≤ 'z'.val))) := rfl
  simp only [isUnreserved, Unreserved, LowercaseOrDigit, Char.isAlphanum, letter, Char.isDigit,
    Char.le_def, Bool.or_eq_true, Bool.and_eq_true, decide_eq_true_eq, beq_iff_eq, mem_cons,
    not_mem_nil, or_false]
  tauto

theorem isHexDigit_iff {char : Char} : isHexDigit char = true ↔ HexDigit char := by
  simp [isHexDigit, HexDigit, Char.isDigit, Char.le_def]

/-! ### Components -/

structure LabelText (maxBytes : Nat) (text : List Char) : Prop where
  nonempty : text ≠ []
  length : text.length ≤ maxBytes
  characters : ∀ char ∈ text, LowercaseOrDigit char ∨ char = '-'
  head : text.head? ≠ some '-'
  last : text.getLast? ≠ some '-'

/-- Labels with dots between them. -/
structure AuthorityText (text : List Char) : Prop where
  length : text.length ≤ 253
  labels : ∃ labels : List (List Char), labels ≠ [] ∧ text = ['.'].intercalate labels ∧
    ∀ label ∈ labels, LabelText 63 label

structure SegmentText (text : List Char) : Prop where
  nonempty : text ≠ []
  noDot : text ≠ ['.']
  noDots : text ≠ ['.', '.']
  length : text.length ≤ 128
  characters : ∀ char ∈ text, Unreserved char

def RevisionText (text : List Char) : Prop :=
  ∃ digits : List Char, text = "sha256:".toList ++ digits ∧ digits.length = 64 ∧
    ∀ char ∈ digits, HexDigit char

def kindWords : List (List Char) :=
  ["agent".toList, "user".toList, "service".toList, "team".toList]

def collectionWords : List (List Char) :=
  ["memory".toList, "resources".toList, "skills".toList]

def viewWords : List (List Char) :=
  ["abstract".toList, "overview".toList, "content".toList]

/-! ### Names -/

/-- The parts that a text of the grammar consists of. -/
structure UriSpelling where
  authority : List Char
  tenant : List Char
  kind : List Char
  id : List Char
  collection : List Char
  path : List (List Char)
  revision : Option (List Char)
  view : Option (List Char)

namespace UriSpelling

variable (spelling : UriSpelling)

def query : List Char :=
  match spelling.revision, spelling.view with
  | none, none => []
  | some revision, none => "?rev=".toList ++ revision
  | none, some view => "?view=".toList ++ view
  | some revision, some view => "?rev=".toList ++ revision ++ "&view=".toList ++ view

def text : List Char :=
  "ruv://".toList ++ ['/'].intercalate (spelling.authority :: spelling.tenant :: spelling.kind ::
    spelling.id :: spelling.collection :: spelling.path) ++ spelling.query

/-- Every part is in its class and within its limit, and so are the path and the whole. -/
structure Lawful : Prop where
  authority : AuthorityText spelling.authority
  tenant : LabelText 63 spelling.tenant
  kind : spelling.kind ∈ kindWords
  id : LabelText 63 spelling.id
  collection : spelling.collection ∈ collectionWords
  path : ∀ segment ∈ spelling.path, SegmentText segment
  revision : ∀ revision ∈ spelling.revision, RevisionText revision
  view : ∀ view ∈ spelling.view, view ∈ viewWords
  pathCount : spelling.path.length ≤ 32
  pathLength : (spelling.path.map List.length).sum + (spelling.path.length - 1) ≤ 1024
  length : spelling.text.length ≤ 2048

end UriSpelling

def Grammatical (text : List Char) : Prop := ∃ spelling : UriSpelling, spelling.Lawful ∧
  spelling.text = text

/-! ### Checks -/

theorem edge_iff {text : List Char} {edge : Option Char}
    (characters : ∀ char ∈ text, LowercaseOrDigit char ∨ char = '-')
    (inside : ∀ char, edge = some char → char ∈ text) (present : edge ≠ none) :
    edge.any isAsciiLowercaseOrDigit = true ↔ edge ≠ some '-' := by
  cases edge with
  | none => exact absurd rfl present
  | some char =>
    rw [Option.any_some, isAsciiLowercaseOrDigit_iff, ne_eq, Option.some.injEq]
    have hyphen : ¬LowercaseOrDigit '-' := by decide
    constructor
    · rintro lowercase rfl
      exact hyphen lowercase
    · exact (characters char (inside char rfl)).resolve_right

theorem isLabel_iff {maxBytes : Nat} {text : List Char} :
    isLabel maxBytes text = true ↔ LabelText maxBytes text := by
  have ascii : (∀ char ∈ text, LowercaseOrDigit char ∨ char = '-') →
      byteLength text = text.length := by
    intro characters
    apply byteLength_eq_length
    intro char member
    rcases characters char member with lowercase | rfl
    · exact isAscii_of_isPlain (isPlain_of_lowercase (isAsciiLowercaseOrDigit_iff.mpr lowercase))
    · decide
  have edges : text ≠ [] → text.head? ≠ none ∧ text.getLast? ≠ none := by
    intro nonempty
    exact ⟨mt List.head?_eq_none_iff.mp nonempty, mt List.getLast?_eq_none_iff.mp nonempty⟩
  simp only [isLabel, Bool.and_eq_true, Bool.not_eq_true', isEmpty_eq_false_iff,
    decide_eq_true_eq, all_eq_true, Bool.or_eq_true, beq_iff_eq, isAsciiLowercaseOrDigit_iff]
  constructor
  · rintro ⟨⟨⟨⟨nonempty, bytes⟩, head⟩, last⟩, characters⟩
    refine ⟨nonempty, ascii characters ▸ bytes, characters, ?_, ?_⟩
    · exact (edge_iff characters (fun _ => mem_of_mem_head?) (edges nonempty).1).mp head
    · exact (edge_iff characters (fun _ => mem_of_mem_getLast?) (edges nonempty).2).mp last
  · intro label
    refine ⟨⟨⟨⟨label.nonempty, ascii label.characters ▸ label.length⟩, ?_⟩, ?_⟩, label.characters⟩
    · exact (edge_iff label.characters (fun _ => mem_of_mem_head?)
        (edges label.nonempty).1).mpr label.head
    · exact (edge_iff label.characters (fun _ => mem_of_mem_getLast?)
        (edges label.nonempty).2).mpr label.last

theorem mem_labels {labels : List (List Char)} {char : Char}
    (lawful : ∀ label ∈ labels, LabelText 63 label) (member : char ∈ ['.'].intercalate labels) :
    LowercaseOrDigit char ∨ char = '-' ∨ char = '.' := by
  rcases mem_intercalate member with rfl | ⟨label, listed, inside⟩
  · exact .inr (.inr rfl)
  · exact ((lawful label listed).characters char inside).imp_right .inl

theorem checkAuthority_eq_ok {text : List Char} :
    checkAuthority text = .ok () ↔ AuthorityText text := by
  constructor
  · intro passed
    have plain := (plain_of_authority ⟨text, passed⟩).1
    have bytes := byteLength_eq_length fun char member => isAscii_of_isPlain (plain char member)
    unfold checkAuthority at passed
    repeat' split at passed
    all_goals cases passed
    rename_i short labels
    rw [Bool.or_eq_true, not_or, decide_eq_true_eq, bytes] at short
    refine ⟨Nat.not_lt.mp short.2, text.splitOn '.', splitOn_ne_nil _ _,
      (intercalate_splitOn '.').symm, fun label listed => ?_⟩
    exact isLabel_iff.mp (all_eq_true.mp labels label listed)
  · rintro ⟨length, labels, some_label, rfl, lawful⟩
    have absent : ∀ char, ¬(LowercaseOrDigit char ∨ char = '-' ∨ char = '.') →
        (['.'].intercalate labels).contains char = false := by
      intro char other
      rw [contains_eq_mem, decide_eq_false_iff_not]
      exact fun member => other (mem_labels lawful member)
    have ascii : ∀ char ∈ ['.'].intercalate labels, isAscii char = true := by
      intro char member
      rcases mem_labels lawful member with lowercase | rfl | rfl
      · exact isAscii_of_isPlain (isPlain_of_lowercase (isAsciiLowercaseOrDigit_iff.mpr lowercase))
      · decide
      · decide
    have split : (['.'].intercalate labels).splitOn '.' = labels := by
      apply splitOn_intercalate '.' _ some_label
      intro label listed inside
      exact absurd ((lawful label listed).characters '.' inside) (by decide)
    have filled : (['.'].intercalate labels).isEmpty = false := by
      obtain ⟨first, others, rfl⟩ := exists_cons_of_ne_nil some_label
      rw [isEmpty_eq_false_iff, intercalate_cons]
      exact fun empty => (lawful first mem_cons_self).nonempty
        (append_eq_nil_iff.mp empty).1
    have short : ¬byteLength (['.'].intercalate labels) > maxAuthorityBytes := by
      rw [byteLength_eq_length ascii]
      exact Nat.not_lt.mpr length
    have all : labels.all (isLabel maxDnsLabelBytes) = true :=
      all_eq_true.mpr fun label listed => isLabel_iff.mpr (lawful label listed)
    unfold checkAuthority
    rw [absent '@' (by decide), if_neg Bool.false_ne_true, absent ':' (by decide),
      if_neg Bool.false_ne_true, filled, decide_eq_false short, Bool.or_self,
      if_neg Bool.false_ne_true, split, if_pos all]

theorem checkPathSegment_eq_ok {text : List Char} :
    checkPathSegment text = .ok () ↔ SegmentText text := by
  constructor
  · intro passed
    have plain := (plain_of_pathSegment ⟨text, passed⟩).1
    have bytes := byteLength_eq_length fun char member => isAscii_of_isPlain (plain char member)
    unfold checkPathSegment at passed
    repeat' split at passed
    all_goals cases passed
    rename_i nonempty noDots allowed
    rw [Bool.or_eq_true, not_or, decide_eq_true_eq, bytes, Bool.not_eq_true, Bool.not_eq_false',
      all_eq_true] at allowed
    rw [not_or] at noDots
    exact ⟨fun empty => nonempty (isEmpty_iff.mpr empty), noDots.1, noDots.2,
      Nat.not_lt.mp allowed.1, fun char member => isUnreserved_iff.mp (allowed.2 char member)⟩
  · intro segment
    have allowed : text.all isUnreserved = true :=
      all_eq_true.mpr fun char member => isUnreserved_iff.mpr (segment.characters char member)
    have bytes : byteLength text = text.length := by
      apply byteLength_eq_length
      intro char member
      apply isAscii_of_isPlain
      rw [isPlain, all_eq_true.mp allowed char member, Bool.true_or]
    have short : ¬byteLength text > maxPathSegmentBytes := bytes ▸ Nat.not_lt.mpr segment.length
    have filled : text.isEmpty = false := isEmpty_eq_false_iff.mpr segment.nonempty
    unfold checkPathSegment
    rw [filled, if_neg Bool.false_ne_true, if_neg (not_or.mpr ⟨segment.noDot, segment.noDots⟩),
      decide_eq_false short, allowed]
    rfl

theorem revisionText_iff {text : List Char} :
    RevisionText text ↔ ∃ revision : Revision, revision.toText = text := by
  constructor
  · rintro ⟨digits, rfl, length, characters⟩
    have spelled := hexText_hexBytes
      (fun char member => isHexDigit_iff.mpr (characters char member)) (by rw [length])
    exact ⟨⟨⟨hexBytes digits, by rw [hexBytes_length, length]⟩⟩,
      congrArg (Revision.algorithm ++ ·) spelled⟩
  · rintro ⟨revision, rfl⟩
    refine ⟨hexText revision.bytes.toList, rfl, ?_, fun char member => ?_⟩
    · rw [hexText_length, revision.bytes.toList_length]
    · exact isHexDigit_iff.mp (isHexDigit_hexText _ char member)

theorem kindWords_iff {text : List Char} :
    text ∈ kindWords ↔ ∃ kind : SubjectKind, kind.asStr = text := by
  constructor
  · simp only [kindWords, mem_cons, not_mem_nil, or_false]
    rintro (rfl | rfl | rfl | rfl)
    exacts [⟨.agent, rfl⟩, ⟨.user, rfl⟩, ⟨.service, rfl⟩, ⟨.team, rfl⟩]
  · rintro ⟨kind, rfl⟩
    cases kind <;> decide

theorem collectionWords_iff {text : List Char} :
    text ∈ collectionWords ↔ ∃ collection : Collection, collection.asStr = text := by
  constructor
  · simp only [collectionWords, mem_cons, not_mem_nil, or_false]
    rintro (rfl | rfl | rfl)
    exacts [⟨.memory, rfl⟩, ⟨.resources, rfl⟩, ⟨.skills, rfl⟩]
  · rintro ⟨collection, rfl⟩
    cases collection <;> decide

theorem viewWords_iff {text : List Char} :
    text ∈ viewWords ↔ ∃ view : ProgressiveView, view.asStr = text := by
  constructor
  · simp only [viewWords, mem_cons, not_mem_nil, or_false]
    rintro (rfl | rfl | rfl)
    exacts [⟨.abstract, rfl⟩, ⟨.overview, rfl⟩, ⟨.content, rfl⟩]
  · rintro ⟨view, rfl⟩
    cases view <;> decide

/-! ### Names and their spelling -/

namespace RuvUri

def spelling (uri : RuvUri) : UriSpelling where
  authority := uri.authority.text
  tenant := uri.tenant.text
  kind := uri.subject.kind.asStr
  id := uri.subject.id.text
  collection := uri.collection.asStr
  path := uri.path.map text
  revision := uri.revision.map Revision.toText
  view := uri.view.map ProgressiveView.asStr

theorem text_spelling (uri : RuvUri) : uri.spelling.text = uri.toText := by
  have query : uri.spelling.query = uri.queryText := by
    unfold queryText UriSpelling.query spelling
    cases uri.revision <;> cases uri.view <;> simp
  have schemeText : "ruv://".toList = scheme := by decide
  unfold UriSpelling.text toText
  rw [query, schemeText, hierarchyText_eq]
  rfl

theorem isAscii_toText (uri : RuvUri) : ∀ char ∈ uri.toText, isAscii char = true := by
  intro char member
  rcases uri.plain_of_toText member with plain | separator
  · exact isAscii_of_isPlain plain
  · exact all_eq_true.mp (by decide : ['/', '?', '&', '='].all isAscii = true) char separator

theorem length_toText (uri : RuvUri) : uri.toText.length = uri.canonicalLen := by
  rw [← byteLength_toText, byteLength_eq_length uri.isAscii_toText]

theorem pathLength_eq (uri : RuvUri) :
    (uri.spelling.path.map List.length).sum + (uri.spelling.path.length - 1) =
      uri.optionalPathBytes := by
  have same : ∀ segment ∈ uri.path, byteLength segment.text = segment.text.length := by
    intro segment _
    exact byteLength_eq_length fun char member =>
      isAscii_of_isPlain ((plain_of_pathSegment segment).1 char member)
  rw [optionalPathBytes, map_congr_left same, spelling, map_map, length_map]
  rfl

theorem lawful_spelling {uri : RuvUri} (bounded : uri.Bounded) : uri.spelling.Lawful := by
  obtain ⟨count, bytes, length⟩ := validateComplete_eq_ok.mp bounded
  refine
    { authority := checkAuthority_eq_ok.mp uri.authority.passed
      tenant := isLabel_iff.mp (isSlug_tenant uri.tenant)
      kind := kindWords_iff.mpr ⟨_, rfl⟩
      id := isLabel_iff.mp (isSlug_subjectId uri.subject.id)
      collection := collectionWords_iff.mpr ⟨_, rfl⟩
      path := ?_
      revision := ?_
      view := ?_
      pathCount := ?_
      pathLength := uri.pathLength_eq ▸ bytes
      length := uri.text_spelling ▸ uri.length_toText ▸ length }
  · intro text member
    obtain ⟨segment, _, rfl⟩ := mem_map.mp member
    exact checkPathSegment_eq_ok.mp segment.passed
  · intro text member
    obtain ⟨revision, _, rfl⟩ := Option.map_eq_some_iff.mp member
    exact revisionText_iff.mpr ⟨revision, rfl⟩
  · intro text member
    obtain ⟨view, _, rfl⟩ := Option.map_eq_some_iff.mp member
    exact viewWords_iff.mpr ⟨view, rfl⟩
  · exact (length_map ..).trans_le count

end RuvUri

theorem exists_map_option {α : Type} {spell : α → List Char} {text : Option (List Char)}
    (spells : ∀ present ∈ text, ∃ value, spell value = present) :
    ∃ value : Option α, value.map spell = text := by
  cases text with
  | none => exact ⟨none, rfl⟩
  | some present =>
    obtain ⟨value, same⟩ := spells present rfl
    exact ⟨some value, congrArg some same⟩

theorem UriSpelling.Lawful.exists_uri {spelling : UriSpelling} (lawful : spelling.Lawful) :
    ∃ uri : RuvUri, uri.spelling = spelling ∧ uri.Bounded := by
  obtain ⟨kind, kindText⟩ := kindWords_iff.mp lawful.kind
  obtain ⟨collection, collectionText⟩ := collectionWords_iff.mp lawful.collection
  obtain ⟨revision, revisionText⟩ := exists_map_option fun text member =>
    revisionText_iff.mp (lawful.revision text member)
  obtain ⟨view, viewText⟩ := exists_map_option fun text member =>
    viewWords_iff.mp (lawful.view text member)
  have tenantPassed : checkTenant spelling.tenant = .ok () :=
    if_pos (isLabel_iff.mpr lawful.tenant)
  have idPassed : checkSubjectId spelling.id = .ok () := if_pos (isLabel_iff.mpr lawful.id)
  let path : List PathSegment := spelling.path.pmap
    (fun text segment => ⟨text, checkPathSegment_eq_ok.mpr segment⟩) lawful.path
  have pathTexts : path.map Checked.text = spelling.path := by
    rw [map_pmap, pmap_eq_map, map_id']
  let uri : RuvUri := ⟨⟨spelling.authority, checkAuthority_eq_ok.mpr lawful.authority⟩,
    ⟨spelling.tenant, tenantPassed⟩, ⟨kind, ⟨spelling.id, idPassed⟩⟩, collection, path, revision,
    view⟩
  have same : uri.spelling = spelling := by
    unfold RuvUri.spelling
    rw [kindText, collectionText, pathTexts, revisionText, viewText]
  refine ⟨uri, same, validateComplete_eq_ok.mpr ⟨?_, ?_, ?_⟩⟩
  · rw [← length_map, pathTexts]
    exact lawful.pathCount
  · rw [← uri.pathLength_eq, same]
    exact lawful.pathLength
  · rw [← uri.length_toText, ← uri.text_spelling, same]
    exact lawful.length

/-! ### The parser and the grammar -/

namespace RuvUri

/-- A text is accepted exactly when the grammar has it, and no text makes the parser access its
array out of range. -/
theorem parse_grammatical (value : String) :
    ((∃ uri, parse value = .ok uri) ↔ Grammatical value.toList) ∧
      (¬Grammatical value.toList → ∃ e, parse value = .error e) ∧
      (parseIndexed value.toList).runFrom () = some (parse value, ()) := by
  have accepted : (∃ uri, parse value = .ok uri) ↔ Grammatical value.toList := by
    constructor
    · rintro ⟨uri, parsed⟩
      obtain ⟨spelled, bounded⟩ := (canonical_fromStr _ uri).mp parsed
      exact ⟨uri.spelling, lawful_spelling bounded, uri.text_spelling.trans spelled⟩
    · rintro ⟨spelling, lawful, spelled⟩
      obtain ⟨uri, same, bounded⟩ := lawful.exists_uri
      refine ⟨uri, (canonical_fromStr _ uri).mpr ⟨?_, bounded⟩⟩
      rw [← uri.text_spelling, same, spelled]
  refine ⟨accepted, fun outside => ?_, computes_parseIndexed value.toList⟩
  cases parsed : parse value with
  | error e => exact ⟨e, rfl⟩
  | ok uri => exact absurd (accepted.mp ⟨uri, parsed⟩) outside

end RuvUri

end Rvm.Context
