import Rvm.Context.Uri

/-!
Owns the canonicity of `ruv://` text: the characters that components are made of,
one reading rule for each stage of the parser, and the agreement of parser,
builder and printed form.
-/

namespace Rvm.Context

open Foundation List QueryState Checked

/-! ### Plain text -/

/-- The characters that components and revisions are made of. -/
def isPlain (char : Char) : Bool := isUnreserved char || char == ':'

/-- Text without any of the separators. -/
def Plain (text : List Char) : Prop := ∀ char ∈ text, isPlain char = true

variable {char : Char} {hierarchy entry : List Char} {state later : QueryState}

theorem isAscii_of_isPlain (plain : isPlain char = true) : isAscii char = true := by
  have letter : char.isAlpha = (decide ('A'.val ≤ char.val ∧ char.val ≤ 'Z'.val) ||
      (decide ('a'.val ≤ char.val) && decide (char.val ≤ 'z'.val))) := rfl
  simp only [isPlain, isUnreserved, Char.isAlphanum, letter, Char.isDigit, Bool.or_eq_true,
    Bool.and_eq_true, decide_eq_true_eq, beq_iff_eq] at plain
  rcases plain with ((((((⟨_, upper⟩ | ⟨_, lower⟩) | ⟨_, digit⟩) | rfl) | rfl) | rfl) | rfl) | rfl
  · exact decide_eq_true (UInt32.le_trans upper (by decide))
  · exact decide_eq_true (UInt32.le_trans lower (by decide))
  · exact decide_eq_true (UInt32.le_trans digit (by decide))
  all_goals decide

theorem isPlain_of_lowercase (lowercase : isAsciiLowercaseOrDigit char = true) :
    isPlain char = true := by
  simp only [isAsciiLowercaseOrDigit, Bool.or_eq_true] at lowercase
  have letter : char.isAlpha = (char.isUpper || char.isLower) := rfl
  simp only [isPlain, isUnreserved, Char.isAlphanum, letter, Bool.or_eq_true]
  rcases lowercase with lower | digit
  · simp [lower]
  · simp [digit]

namespace Plain

variable {text : List Char}

theorem ofAll (all : text.all isPlain = true) : Plain text :=
  all_eq_true.mp all

theorem not_mem {char : Char} (plain : Plain text) (separates : isPlain char = false) :
    char ∉ text := by
  intro member
  rw [plain char member] at separates
  cases separates

theorem append {first second : List Char} (firstPlain : Plain first) (secondPlain : Plain second) :
    Plain (first ++ second) := by
  intro char member
  rcases mem_append.mp member with inFirst | inSecond
  · exact firstPlain char inFirst
  · exact secondPlain char inSecond

theorem ofLabel {maxBytes : Nat} (label : isLabel maxBytes text = true) : Plain text := by
  intro char member
  simp only [isLabel, Bool.and_eq_true] at label
  have allowed := all_eq_true.mp label.2 char member
  rcases (Bool.or_eq_true _ _).mp allowed with lowercase | hyphen
  · exact isPlain_of_lowercase lowercase
  · rw [beq_iff_eq.mp hyphen]
    decide

end Plain

theorem ne_nil_of_isLabel {maxBytes : Nat} {text : List Char}
    (label : isLabel maxBytes text = true) : text ≠ [] := by
  rintro rfl
  simp [isLabel] at label

/-! ### Components -/

theorem plain_of_authority (authority : Authority) :
    Plain authority.text ∧ authority.text ≠ [] := by
  have passed := authority.passed
  unfold checkAuthority at passed
  repeat' split at passed
  all_goals cases passed
  rename_i nonempty labels
  constructor
  · intro char member
    have whole : ['.'].intercalate (authority.text.splitOn '.') = authority.text :=
      intercalate_splitOn '.'
    rw [← whole] at member
    rcases mem_intercalate member with rfl | ⟨label, listed, inLabel⟩
    · decide
    · exact Plain.ofLabel (all_eq_true.mp labels label listed) char inLabel
  · intro empty
    rw [empty] at nonempty
    exact nonempty rfl

theorem isSlug_tenant (tenant : TenantId) : isSlug tenant.text = true := by
  have passed := tenant.passed
  unfold checkTenant at passed
  split at passed
  · assumption
  · cases passed

theorem isSlug_subjectId (id : SubjectId) : isSlug id.text = true := by
  have passed := id.passed
  unfold checkSubjectId at passed
  split at passed
  · assumption
  · cases passed

theorem plain_of_pathSegment (segment : PathSegment) : Plain segment.text ∧ segment.text ≠ [] := by
  have passed := segment.passed
  unfold checkPathSegment at passed
  repeat' split at passed
  all_goals cases passed
  rename_i nonempty _ allowed
  constructor
  · intro char member
    rw [Bool.or_eq_true, not_or, Bool.not_eq_true, Bool.not_eq_true, Bool.not_eq_false'] at allowed
    rw [isPlain, all_eq_true.mp allowed.2 char member, Bool.true_or]
  · intro empty
    rw [empty] at nonempty
    exact nonempty rfl

theorem plain_of_kind (kind : SubjectKind) : Plain kind.asStr ∧ kind.asStr ≠ [] := by
  cases kind <;> exact ⟨.ofAll (by decide), by decide⟩

theorem plain_of_collection (collection : Collection) :
    Plain collection.asStr ∧ collection.asStr ≠ [] := by
  cases collection <;> exact ⟨.ofAll (by decide), by decide⟩

theorem plain_of_view (view : ProgressiveView) : Plain view.asStr ∧ view.asStr ≠ [] := by
  cases view <;> exact ⟨.ofAll (by decide), by decide⟩

theorem plain_of_revision (revision : Revision) : Plain revision.toText ∧ revision.toText ≠ [] := by
  have algorithmPlain : Plain Revision.algorithm := .ofAll (by decide)
  have hexPlain : Plain (hexText revision.bytes.toList) := by
    intro char member
    have spelled : Plain hexDigits := .ofAll (by decide)
    exact spelled char (mem_hexDigits (isHexDigit_hexText _ char member))
  refine ⟨algorithmPlain.append hexPlain, fun empty => ?_⟩
  exact absurd (append_eq_nil_iff.mp empty).1 (by decide)

namespace RuvUri

/-- The texts between the slashes of a printed name. -/
def components (uri : RuvUri) : List (List Char) :=
  uri.authority.text :: uri.tenant.text :: uri.subject.kind.asStr :: uri.subject.id.text ::
    uri.collection.asStr :: uri.path.map fun segment => segment.text

theorem plain_of_component (uri : RuvUri) :
    ∀ component ∈ uri.components, Plain component ∧ component ≠ [] := by
  intro component member
  simp only [components, mem_cons, mem_map] at member
  rcases member with rfl | rfl | rfl | rfl | rfl | ⟨segment, _, rfl⟩
  · exact plain_of_authority uri.authority
  · exact ⟨.ofLabel (isSlug_tenant uri.tenant), ne_nil_of_isLabel (isSlug_tenant uri.tenant)⟩
  · exact plain_of_kind uri.subject.kind
  · exact ⟨.ofLabel (isSlug_subjectId uri.subject.id),
      ne_nil_of_isLabel (isSlug_subjectId uri.subject.id)⟩
  · exact plain_of_collection uri.collection
  · exact plain_of_pathSegment segment

theorem hierarchyText_eq (uri : RuvUri) : uri.hierarchyText = ['/'].intercalate uri.components := by
  rw [components, intercalate_cons]
  simp [hierarchyText, flatMap_map]

theorem splitOn_hierarchyText (uri : RuvUri) : uri.hierarchyText.splitOn '/' = uri.components := by
  rw [hierarchyText_eq]
  exact splitOn_intercalate '/'
    (fun component member => (uri.plain_of_component component member).1.not_mem (by decide))
    (cons_ne_nil _ _)

theorem hierarchyText_not_slash (uri : RuvUri) : uri.hierarchyText.getLast? ≠ some '/' := by
  rw [hierarchyText_eq]
  exact getLast?_intercalate_ne (fun component member => (uri.plain_of_component component member).2)
    fun component member => (uri.plain_of_component component member).1.not_mem (by decide)

/-! ### The hierarchy -/

theorem map_byteLength_segments (path : List PathSegment) :
    (path.map fun segment => segment.text).map byteLength =
      path.map fun segment => byteLength segment.text :=
  map_map

end RuvUri

theorem parsePath_eq_ok {parts : List (List Char)} {path : List PathSegment} :
    parsePath parts = .ok path ↔ (path.map fun segment => segment.text) = parts ∧
      path.length ≤ maxPathSegments ∧
      (path.map fun segment => byteLength segment.text).sum + (path.length - 1) ≤ maxPathBytes := by
  have read : ∀ (text : List Char) (segment : PathSegment),
      newPrevalidated text = .ok segment ↔ segment.text = text :=
    fun text segment => newPrevalidated_eq_ok
  have reads := mapM_eq_ok read parts path
  unfold parsePath
  constructor
  · intro parsed
    split at parsed
    · cases parsed
    · rename_i count
      split at parsed
      · cases parsed
      · rename_i bytes
        have spelled := reads.mp parsed
        rw [← spelled, RuvUri.map_byteLength_segments, length_map] at bytes
        rw [← spelled, length_map] at count
        exact ⟨spelled, Nat.not_lt.mp count, Nat.not_lt.mp bytes⟩
  · rintro ⟨spelled, count, bytes⟩
    have sum : (parts.map byteLength).sum + (parts.length - 1) ≤ maxPathBytes := by
      rw [← spelled, RuvUri.map_byteLength_segments, length_map]
      exact bytes
    have length : parts.length ≤ maxPathSegments := by
      rw [← spelled, length_map]
      exact count
    rw [if_neg (Nat.not_lt.mpr length), if_neg (Nat.not_lt.mpr sum)]
    exact reads.mpr spelled

theorem parseHierarchy_eq_ok {uri : RuvUri} :
    parseHierarchy hierarchy = .ok uri ↔ uri.hierarchyText = hierarchy ∧
      uri.revision = none ∧ uri.view = none ∧
      uri.path.length ≤ maxPathSegments ∧ uri.optionalPathBytes ≤ maxPathBytes := by
  constructor
  · intro parsed
    unfold parseHierarchy at parsed
    split at parsed
    · cases parsed
    · dsimp only at parsed
      split at parsed
      · rename_i authorityText tenantText kindText idText collectionText pathTexts shape
        split at parsed
        · cases parsed
        · obtain ⟨authority, readAuthority, parsed⟩ := bind_eq_ok.mp parsed
          obtain ⟨tenant, readTenant, parsed⟩ := bind_eq_ok.mp parsed
          obtain ⟨kind, readKind, parsed⟩ := bind_eq_ok.mp parsed
          obtain ⟨id, readId, parsed⟩ := bind_eq_ok.mp parsed
          obtain ⟨collection, readCollection, parsed⟩ := bind_eq_ok.mp parsed
          obtain ⟨path, readPath, parsed⟩ := bind_eq_ok.mp parsed
          obtain ⟨pathSpelled, count, bytes⟩ := parsePath_eq_ok.mp readPath
          cases parsed
          refine ⟨?_, rfl, rfl, count, bytes⟩
          rw [RuvUri.hierarchyText_eq, RuvUri.components]
          dsimp only
          rw [newPrevalidated_eq_ok.mp readAuthority,
            newPrevalidated_eq_ok.mp readTenant, SubjectKind.fromStr_eq_ok.mp readKind,
            newPrevalidated_eq_ok.mp readId, Collection.fromStr_eq_ok.mp readCollection,
            pathSpelled, ← shape]
          exact intercalate_splitOn '/'
      · cases parsed
  · rintro ⟨rfl, noRevision, noView, count, bytes⟩
    have nonempty : uri.components.any List.isEmpty = false := by
      rw [any_eq_false]
      intro component member empty
      exact (uri.plain_of_component component member).2 (isEmpty_iff.mp empty)
    unfold parseHierarchy
    rw [if_neg uri.hierarchyText_not_slash]
    dsimp only
    rw [uri.splitOn_hierarchyText]
    rw [RuvUri.components] at nonempty ⊢
    dsimp only
    rw [nonempty, if_neg Bool.false_ne_true]
    refine bind_eq_ok.mpr ⟨_, newPrevalidated_eq_ok.mpr rfl, bind_eq_ok.mpr
      ⟨_, newPrevalidated_eq_ok.mpr rfl, bind_eq_ok.mpr
      ⟨_, SubjectKind.fromStr_eq_ok.mpr rfl, bind_eq_ok.mpr
      ⟨_, newPrevalidated_eq_ok.mpr rfl, bind_eq_ok.mpr
      ⟨_, Collection.fromStr_eq_ok.mpr rfl, bind_eq_ok.mpr
      ⟨_, parsePath_eq_ok.mpr ⟨rfl, count, bytes⟩, ?_⟩⟩⟩⟩⟩⟩
    rw [← noRevision, ← noView]
    rfl

/-! ### The query -/

def revisionEntry (revision : Revision) : List Char := "rev=".toList ++ revision.toText

def viewEntry (view : ProgressiveView) : List Char := "view=".toList ++ view.asStr

namespace QueryState

def entries (state : QueryState) : List (List Char) :=
  (state.revision.map revisionEntry).toList ++ (state.view.map viewEntry).toList

/-- A view was seen exactly when there is one. -/
def Consistent (state : QueryState) : Prop := state.sawView = state.view.isSome

end QueryState

theorem splitOnce_revisionEntry (revision : Revision) :
    splitOnce '=' (revisionEntry revision) = some ("rev".toList, revision.toText) :=
  splitOnce_eq_some.mpr ⟨rfl, by decide⟩

theorem splitOnce_viewEntry (view : ProgressiveView) :
    splitOnce '=' (viewEntry view) = some ("view".toList, view.asStr) :=
  splitOnce_eq_some.mpr ⟨rfl, by decide⟩

theorem entryShape {key value : List Char} (keyed : key.isEmpty = false)
    (spelled : Plain value ∧ value ≠ []) :
    (key.isEmpty || value.isEmpty || value.contains '=') = false := by
  have single : value.contains '=' = false := by
    rw [contains_eq_mem, decide_eq_false_iff_not]
    exact spelled.1.not_mem (by decide)
  have nonempty : value.isEmpty = false := by
    rw [isEmpty_eq_false_iff]
    exact spelled.2
  rw [keyed, nonempty, single]
  rfl

theorem parseEntry_revision (revision : Revision) (first : state.revision = none)
    (beforeView : state.sawView = false) :
    parseEntry state (revisionEntry revision) = .ok { state with revision := some revision } := by
  unfold parseEntry
  rw [splitOnce_revisionEntry]
  dsimp only
  rw [entryShape (by decide) (plain_of_revision revision), if_neg Bool.false_ne_true, if_pos rfl,
    first, if_neg (by decide), beforeView, if_neg Bool.false_ne_true,
    Revision.fromStr_eq_ok.mpr rfl]
  rfl

theorem parseEntry_view (view : ProgressiveView) (first : state.view = none) :
    parseEntry state (viewEntry view) = .ok { state with view := some view, sawView := true } := by
  unfold parseEntry
  rw [splitOnce_viewEntry]
  dsimp only
  rw [entryShape (by decide) (plain_of_view view), if_neg Bool.false_ne_true,
    if_neg (by decide), if_pos rfl, first, if_neg (by decide), ProgressiveView.fromStr_eq_ok.mpr rfl]
  rfl

theorem parseEntry_cases (parsed : parseEntry state entry = .ok later) :
    (∃ revision, entry = revisionEntry revision ∧ state.revision = none ∧ state.sawView = false ∧
      later = ⟨some revision, state.view, state.sawView⟩) ∨
    ∃ view, entry = viewEntry view ∧ state.view = none ∧ later = ⟨state.revision, some view, true⟩ := by
  unfold parseEntry at parsed
  split at parsed
  · cases parsed
  · rename_i key value found
    obtain ⟨shape, _⟩ := splitOnce_eq_some.mp found
    split at parsed
    · cases parsed
    · split at parsed
      · rename_i revisionKey
        split at parsed
        · cases parsed
        · rename_i first
          split at parsed
          · cases parsed
          · rename_i beforeView
            obtain ⟨revision, read, made⟩ := bind_eq_ok.mp parsed
            cases made
            refine .inl ⟨revision, ?_, Option.not_isSome_iff_eq_none.mp first,
              Bool.not_eq_true _ ▸ beforeView, rfl⟩
            rw [shape, revisionKey, ← Revision.fromStr_eq_ok.mp read]
            rfl
      · split at parsed
        · rename_i viewKey
          split at parsed
          · cases parsed
          · rename_i first
            obtain ⟨view, read, made⟩ := bind_eq_ok.mp parsed
            cases made
            refine .inr ⟨view, ?_, Option.not_isSome_iff_eq_none.mp first, rfl⟩
            rw [shape, viewKey, ← ProgressiveView.fromStr_eq_ok.mp read]
            rfl
        · cases parsed

theorem parseEntry_entries (consistent : state.Consistent)
    (parsed : parseEntry state entry = .ok later) :
    later.Consistent ∧ later.entries = state.entries ++ [entry] := by
  rcases parseEntry_cases parsed with
    ⟨revision, rfl, noRevision, noView, rfl⟩ | ⟨view, rfl, noView, rfl⟩
  · rw [QueryState.Consistent, noView] at consistent
    have viewless := Option.isNone_iff_eq_none.mp (Option.isSome_eq_false_iff.mp consistent.symm)
    refine ⟨noView.trans consistent, ?_⟩
    simp only [entries, noRevision, viewless]
    rfl
  · refine ⟨rfl, ?_⟩
    simp only [entries, noView, Option.map_none, Option.toList_none, append_nil]
    rfl

theorem foldlM_parseEntry {entries : List (List Char)} (consistent : state.Consistent)
    (parsed : entries.foldlM parseEntry state = .ok later) :
    later.entries = state.entries ++ entries := by
  induction entries generalizing state with
  | nil =>
    cases parsed
    exact (append_nil _).symm
  | cons entry rest ih =>
    rw [foldlM_cons] at parsed
    obtain ⟨after, first, remaining⟩ := bind_eq_ok.mp parsed
    obtain ⟨stillConsistent, spelled⟩ := parseEntry_entries consistent first
    rw [ih stillConsistent remaining, spelled, append_assoc]
    rfl

theorem foldlM_entries (revision : Option Revision) (view : Option ProgressiveView) :
    (entries ⟨revision, view, view.isSome⟩).foldlM parseEntry ⟨none, none, false⟩ =
      .ok ⟨revision, view, view.isSome⟩ := by
  have readView : ∀ revision : Option Revision,
      ((view.map viewEntry).toList).foldlM parseEntry ⟨revision, none, false⟩ =
        .ok ⟨revision, view, view.isSome⟩ := by
    intro revision
    cases view with
    | none => rfl
    | some view => exact bind_eq_ok.mpr ⟨_, parseEntry_view view rfl, rfl⟩
  rw [entries, foldlM_append]
  refine bind_eq_ok.mpr ⟨⟨revision, none, false⟩, ?_, readView revision⟩
  cases revision with
  | none => rfl
  | some revision => exact bind_eq_ok.mpr ⟨_, parseEntry_revision revision rfl rfl, rfl⟩

def queryOf (revision : Option Revision) (view : Option ProgressiveView) : Option (List Char) :=
  match entries ⟨revision, view, view.isSome⟩ with
  | [] => none
  | first :: others => some (['&'].intercalate (first :: others))

theorem plain_of_entry (member : entry ∈ state.entries) (inside : char ∈ entry) :
    isPlain char = true ∨ char = '=' := by
  have ofKey : ∀ key value : List Char, Plain key → Plain value → char ∈ key ++ '=' :: value →
      isPlain char = true ∨ char = '=' := by
    intro key value keyPlain valuePlain inEntry
    rcases mem_append.mp inEntry with inKey | inValue
    · exact .inl (keyPlain char inKey)
    · rcases mem_cons.mp inValue with equals | inText
      · exact .inr equals
      · exact .inl (valuePlain char inText)
  rcases mem_append.mp member with ofRevision | ofView
  · obtain ⟨revision, _, rfl⟩ := Option.map_eq_some_iff.mp (Option.mem_toList.mp ofRevision)
    exact ofKey "rev".toList revision.toText (.ofAll (by decide))
      (plain_of_revision revision).1 inside
  · obtain ⟨view, _, rfl⟩ := Option.map_eq_some_iff.mp (Option.mem_toList.mp ofView)
    exact ofKey "view".toList view.asStr (.ofAll (by decide)) (plain_of_view view).1 inside

theorem entry_ne_nil (member : entry ∈ state.entries) : entry ≠ [] := by
  rcases mem_append.mp member with ofRevision | ofView
  · obtain ⟨revision, _, rfl⟩ := Option.map_eq_some_iff.mp (Option.mem_toList.mp ofRevision)
    exact cons_ne_nil _ _
  · obtain ⟨view, _, rfl⟩ := Option.map_eq_some_iff.mp (Option.mem_toList.mp ofView)
    exact cons_ne_nil _ _

theorem entries_length_le (state : QueryState) : state.entries.length ≤ 2 := by
  obtain ⟨revision, view, sawView⟩ := state
  cases revision <;> cases view <;> simp [entries]

theorem parseQuery_eq_ok {query : Option (List Char)} {revision : Option Revision}
    {view : Option ProgressiveView} :
    parseQuery query = .ok (revision, view) ↔ queryOf revision view = query := by
  constructor
  · intro parsed
    unfold parseQuery at parsed
    split at parsed
    · cases parsed
      rfl
    · rename_i query
      split at parsed
      · cases parsed
      · dsimp only at parsed
        split at parsed
        · cases parsed
        · obtain ⟨state, folded, made⟩ := bind_eq_ok.mp parsed
          cases made
          have initial : QueryState.Consistent ⟨none, none, false⟩ := rfl
          have spelled := foldlM_parseEntry initial folded
          have whole : ['&'].intercalate (query.splitOn '&') = query :=
            intercalate_splitOn '&'
          have listed : entries ⟨state.revision, state.view, state.view.isSome⟩ =
              query.splitOn '&' := spelled
          unfold queryOf
          rw [listed]
          rcases shape : query.splitOn '&' with _ | ⟨first, others⟩
          · exact absurd shape (splitOn_ne_nil _ _)
          · rw [shape] at whole
            exact congrArg some whole
  · rintro rfl
    have folded := foldlM_entries revision view
    have short := entries_length_le ⟨revision, view, view.isSome⟩
    have nonempty : ∀ entry ∈ entries ⟨revision, view, view.isSome⟩, entry ≠ [] :=
      fun entry member => entry_ne_nil member
    have single : ∀ entry ∈ entries ⟨revision, view, view.isSome⟩, '&' ∉ entry := by
      intro entry member inside
      rcases plain_of_entry member inside with plain | equals
      · exact absurd plain (by decide)
      · exact absurd equals (by decide)
    unfold queryOf
    rcases entries : entries ⟨revision, view, view.isSome⟩ with _ | ⟨first, others⟩
    · rw [entries] at folded
      cases folded
      rfl
    · rw [entries] at folded short nonempty single
      have split := splitOn_intercalate '&' single (cons_ne_nil first others)
      have present : (['&'].intercalate (first :: others)).isEmpty = false := by
        rw [isEmpty_eq_false_iff, intercalate_cons]
        exact fun empty => nonempty first mem_cons_self (append_eq_nil_iff.mp empty).1
      have complete : (first :: others).any List.isEmpty = false := by
        rw [any_eq_false]
        intro entry member empty
        exact nonempty entry member (isEmpty_iff.mp empty)
      unfold parseQuery
      dsimp only
      rw [present, if_neg Bool.false_ne_true, split, complete, Bool.or_false,
        decide_eq_false (Nat.not_lt.mpr short), if_neg Bool.false_ne_true, folded]
      rfl

/-! ### The whole name -/

namespace RuvUri

theorem queryText_eq (uri : RuvUri) :
    uri.queryText = (queryOf uri.revision uri.view).elim [] ('?' :: ·) := by
  unfold queryText queryOf entries
  cases uri.revision <;> cases uri.view <;>
    simp [revisionEntry, viewEntry, intercalate_cons_cons]

variable {char : Char}

theorem plain_of_queryText (uri : RuvUri) (member : char ∈ uri.queryText) :
    isPlain char = true ∨ char ∈ ['?', '&', '='] := by
  rw [queryText_eq, queryOf] at member
  split at member
  · cases member
  · rename_i first others entries
    rcases mem_cons.mp member with rfl | inside
    · exact .inr (by decide)
    · rcases mem_intercalate inside with rfl | ⟨entry, listed, inEntry⟩
      · exact .inr (by decide)
      · rw [← entries] at listed
        rcases plain_of_entry listed inEntry with plain | rfl
        · exact .inl plain
        · exact .inr (by decide)

theorem plain_of_hierarchyText (uri : RuvUri) (member : char ∈ uri.hierarchyText) :
    isPlain char = true ∨ char = '/' := by
  rw [hierarchyText_eq] at member
  rcases mem_intercalate member with rfl | ⟨component, listed, inside⟩
  · exact .inr rfl
  · exact .inl ((uri.plain_of_component component listed).1 char inside)

/-- A printed name is made of plain characters and the five separators. -/
theorem plain_of_toText (uri : RuvUri) (member : char ∈ uri.toText) :
    isPlain char = true ∨ char ∈ ['/', '?', '&', '='] := by
  rcases mem_append.mp member with front | inQuery
  · rcases mem_append.mp front with inScheme | inHierarchy
    · have spelled : (scheme.all fun char => isPlain char || char == '/') = true := by decide
      rcases (Bool.or_eq_true _ _).mp (all_eq_true.mp spelled char inScheme) with plain | slash
      · exact .inl plain
      · exact .inr (mem_cons.mpr (.inl (beq_iff_eq.mp slash)))
    · rcases uri.plain_of_hierarchyText inHierarchy with plain | rfl
      · exact .inl plain
      · exact .inr (by decide)
  · exact (uri.plain_of_queryText inQuery).imp_right (mem_cons_of_mem '/')

theorem rejectForbiddenOctets_toText (uri : RuvUri) : rejectForbiddenOctets uri.toText = .ok () := by
  have ascii : (uri.toText.any fun char => !isAscii char) = false := by
    rw [any_eq_false]
    intro char member
    rw [Bool.not_eq_true, Bool.not_eq_false']
    rcases uri.plain_of_toText member with plain | separator
    · exact isAscii_of_isPlain plain
    · have spelled : ['/', '?', '&', '='].all isAscii = true := by decide
      exact all_eq_true.mp spelled char separator
  have absent : ∀ forbidden : Char, isPlain forbidden = false → forbidden ∉ ['/', '?', '&', '='] →
      uri.toText.contains forbidden = false := by
    intro forbidden notPlain notSeparator
    rw [contains_eq_mem, decide_eq_false_iff_not]
    intro member
    rcases uri.plain_of_toText member with plain | separator
    · rw [notPlain] at plain
      cases plain
    · exact notSeparator separator
  unfold rejectForbiddenOctets
  rw [ascii, if_neg Bool.false_ne_true, absent '%' (by decide) (by decide),
    if_neg Bool.false_ne_true, absent '#' (by decide) (by decide), if_neg Bool.false_ne_true]

theorem byteLength_revision (revision : Revision) : byteLength revision.toText = 7 + 64 := by
  rw [byteLength_eq_length fun char member =>
    isAscii_of_isPlain ((plain_of_revision revision).1 char member), Revision.toText,
    length_append, hexText_length, revision.bytes.toList_length]
  rfl

theorem byteLength_toText (uri : RuvUri) : byteLength uri.toText = uri.canonicalLen := by
  have slash : ∀ text : List Char, byteLength ('/' :: text) = 1 + byteLength text := fun text => rfl
  have path : byteLength (uri.path.flatMap fun segment => '/' :: segment.text) =
      (uri.path.map fun segment => 1 + byteLength segment.text).sum := byteLength_flatMap _ _
  have empty : byteLength [] = 0 := rfl
  have revKey : byteLength "?rev=".toList = 1 + 4 := by decide
  have viewKey : byteLength "?view=".toList = 1 + 5 := by decide
  have viewKeyAfter : byteLength "&view=".toList = 1 + 5 := by decide
  rw [toText, hierarchyText, queryText, canonicalLen]
  cases uri.revision <;> cases uri.view <;>
    simp only [byteLength_append, slash, path, empty, byteLength_revision, revKey, viewKey, viewKeyAfter,
      Option.isSome_some, Option.isSome_none, if_true, if_false,
      Bool.false_eq_true] <;>
    omega

end RuvUri

theorem validateComplete_eq_ok {uri : RuvUri} : validateComplete uri = .ok () ↔
    uri.path.length ≤ maxPathSegments ∧ uri.optionalPathBytes ≤ maxPathBytes ∧
      uri.canonicalLen ≤ maxUriBytes := by
  unfold validateComplete
  constructor
  · intro valid
    repeat' split at valid
    all_goals cases valid
    rename_i count bytes length
    exact ⟨Nat.not_lt.mp count, Nat.not_lt.mp bytes, Nat.not_lt.mp length⟩
  · rintro ⟨count, bytes, length⟩
    rw [if_neg (Nat.not_lt.mpr count), if_neg (Nat.not_lt.mpr bytes), if_neg (Nat.not_lt.mpr length)]

theorem splitQuery_eq {text : List Char} {query : Option (List Char)}
    (split : splitQuery text = (hierarchy, query)) :
    text = hierarchy ++ query.elim [] ('?' :: ·) := by
  unfold splitQuery at split
  cases found : splitOnce '?' text with
  | none =>
    rw [found] at split
    cases split
    exact (append_nil _).symm
  | some parts =>
    rw [found] at split
    cases split
    exact (splitOnce_eq_some.mp found).1

theorem splitQuery_append (absent : '?' ∉ hierarchy) (query : Option (List Char)) :
    splitQuery (hierarchy ++ query.elim [] ('?' :: ·)) = (hierarchy, query) := by
  unfold splitQuery
  cases query with
  | none =>
    rw [Option.elim_none, append_nil, splitOnce_eq_none.mpr absent]
  | some query =>
    rw [Option.elim_some, splitOnce_eq_some.mpr ⟨rfl, absent⟩]

namespace RuvUri

/-- The names within the size limits. -/
def Bounded (uri : RuvUri) : Prop := validateComplete uri = .ok ()

theorem canonical_fromStr : Canonical fromStr toText Bounded := by
  intro text uri
  constructor
  · intro parsed
    unfold fromStr at parsed
    split at parsed
    · cases parsed
    · obtain ⟨_, _, parsed⟩ := bind_eq_ok.mp parsed
      split at parsed
      · cases parsed
      · rename_i afterScheme stripped
        obtain ⟨base, readHierarchy, parsed⟩ := bind_eq_ok.mp parsed
        obtain ⟨options, readQuery, parsed⟩ := bind_eq_ok.mp parsed
        obtain ⟨_, valid, parsed⟩ := bind_eq_ok.mp parsed
        cases parsed
        refine ⟨?_, valid⟩
        have spelled := (parseHierarchy_eq_ok.mp readHierarchy).1
        have query := parseQuery_eq_ok.mp readQuery
        have whole : afterScheme =
            (splitQuery afterScheme).1 ++ (splitQuery afterScheme).2.elim [] ('?' :: ·) :=
          splitQuery_eq rfl
        rw [toText, queryText_eq, stripText_eq_some.mp stripped, append_assoc]
        apply congrArg (scheme ++ ·)
        dsimp only
        rw [query]
        exact (congrArg (· ++ _) spelled).trans whole.symm
  · rintro ⟨rfl, valid⟩
    obtain ⟨count, bytes, length⟩ := validateComplete_eq_ok.mp valid
    have absent : '?' ∉ uri.hierarchyText := by
      intro member
      rcases uri.plain_of_hierarchyText member with plain | slash
      · exact absurd plain (by decide)
      · exact absurd slash (by decide)
    have stripped : stripText scheme uri.toText =
        some (uri.hierarchyText ++ (queryOf uri.revision uri.view).elim [] ('?' :: ·)) := by
      rw [stripText_eq_some, toText, queryText_eq, append_assoc]
    unfold fromStr
    rw [byteLength_toText, if_neg (Nat.not_lt.mpr length)]
    refine bind_eq_ok.mpr ⟨(), uri.rejectForbiddenOctets_toText, ?_⟩
    rw [stripped]
    dsimp only
    rw [splitQuery_append absent]
    refine bind_eq_ok.mpr ⟨⟨uri.authority, uri.tenant, uri.subject, uri.collection, uri.path, none,
      none⟩, parseHierarchy_eq_ok.mpr ⟨rfl, rfl, rfl, count, bytes⟩, ?_⟩
    refine bind_eq_ok.mpr ⟨(uri.revision, uri.view), parseQuery_eq_ok.mpr rfl, ?_⟩
    exact bind_eq_ok.mpr ⟨(), valid, rfl⟩

theorem canonical_parse : Canonical parse toString Bounded := by
  intro text uri
  rw [parse, canonical_fromStr text.toList uri, toString]
  constructor
  · rintro ⟨spelled, bounded⟩
    exact ⟨by rw [spelled, String.ofList_toList], bounded⟩
  · rintro ⟨rfl, bounded⟩
    exact ⟨String.toList_ofList.symm, bounded⟩

theorem Obtainable.bounded {uri : RuvUri} (obtainable : uri.Obtainable) : uri.Bounded := by
  have validated : ∀ {α : Type} {uri : RuvUri} {made result : α},
      (validateComplete uri >>= fun _ => pure made) = .ok result → uri.Bounded ∧ made = result := by
    intro α uri made result done
    obtain ⟨_, valid, same⟩ := bind_eq_ok.mp done
    exact ⟨valid, Except.ok.inj same⟩
  cases obtainable with
  | parsed parsed => exact ((canonical_parse _ _).mp parsed).2
  | built _ made | withRevision _ made | withView _ made =>
    obtain ⟨bounded, rfl⟩ := validated made
    exact bounded
  | builtPinned _ made =>
    obtain ⟨uri, built, pinned⟩ := bind_eq_ok.mp made
    obtain ⟨bounded, rfl⟩ := validated built
    unfold PinnedRuvUri.tryFrom at pinned
    split at pinned
    · cases pinned
      exact bounded
    · cases pinned

/-- The text of a name is canonical: it is read back as the name, and no other
text is read as it. -/
theorem canonicalText :
    (∀ (text : String) (uri : RuvUri), parse text = .ok uri → uri.toString = text) ∧
    (∀ uri : RuvUri, uri.Obtainable → parse uri.toString = .ok uri) ∧
    (∀ first second : RuvUri, first.Obtainable → second.Obtainable →
      (first = second ↔ first.toString = second.toString)) ∧
    ∀ (first second : String) (uri : RuvUri), parse first = .ok uri → parse second = .ok uri →
      first = second := by
  refine ⟨?_, ?_, ?_, ?_⟩
  · intro text uri parsed
    exact ((canonical_parse text uri).mp parsed).1
  · intro uri obtainable
    exact (canonical_parse _ uri).mpr ⟨rfl, obtainable.bounded⟩
  · intro first second firstObtainable secondObtainable
    exact canonical_parse.print_eq_iff firstObtainable.bounded secondObtainable.bounded
  · intro first second uri readFirst readSecond
    exact canonical_parse.text_unique readFirst readSecond

def sampleName : RuvUri :=
  ⟨sampleHost, sampleTenant, sampleSubject, .skills, [sampleSegment], none,
    some .overview⟩

theorem parse_sampleName : parse "ruv://a/t/user/u/skills/S?view=overview" = .ok sampleName :=
  (canonical_parse _ _).mpr ⟨rfl, by unfold Bounded; decide⟩

/-- The name at a revision of zeroes. -/
def samplePinned : RuvUri := { sampleName with revision := some ⟨.zero 32⟩ }

/-- The pinned name differs from the name it was made of, and so does its text. -/
theorem canonicalText_sample :
    sampleName.toString = "ruv://a/t/user/u/skills/S?view=overview" ∧
    parse samplePinned.toString = .ok samplePinned ∧ samplePinned.toString ≠ sampleName.toString ∧
    ∀ text, parse text = .ok samplePinned → text = samplePinned.toString := by
  have obtainable : sampleName.Obtainable := .parsed parse_sampleName
  have pinned : samplePinned.Obtainable := @Obtainable.withRevision _ _ ⟨samplePinned, _⟩ obtainable rfl
  have readBack := canonicalText.2.1 samplePinned pinned
  have differs : samplePinned ≠ sampleName := by decide
  exact ⟨canonicalText.1 _ sampleName parse_sampleName, readBack,
    mt (canonicalText.2.2.1 _ _ pinned obtainable).mpr differs,
    fun text parsed => canonicalText.2.2.2 _ _ samplePinned parsed readBack⟩

end RuvUri

end Rvm.Context
