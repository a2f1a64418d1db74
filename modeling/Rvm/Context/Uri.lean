import Rvm.Context.UriParts

/-!
Owns `ruv://` names (`rvm-context/src/uri.rs`): their size limits, their printed
form, their parser and their builder, with the rule that parsing accepts exactly
the printed forms of the names within the limits.
-/

namespace Rvm.Context

open Foundation Checked

structure RuvUri where
  authority : Authority
  tenant : TenantId
  subject : Subject
  collection : Collection
  path : List PathSegment
  revision : Option Revision
  view : Option ProgressiveView
deriving DecidableEq

def RuvUri.optionalPathBytes (uri : RuvUri) : Nat :=
  (uri.path.map fun segment => byteLength segment.text).sum + (uri.path.length - 1)

def RuvUri.canonicalLen (uri : RuvUri) : Nat :=
  byteLength scheme + byteLength uri.authority.text + 4 + byteLength uri.tenant.text +
    byteLength uri.subject.kind.asStr + byteLength uri.subject.id.text +
    byteLength uri.collection.asStr +
    (uri.path.map fun segment => 1 + byteLength segment.text).sum +
    (if uri.revision.isSome then 1 + 4 + 7 + 64 else 0) +
    match uri.view with
    | some view => 1 + 5 + byteLength view.asStr
    | none => 0

def validateComplete (uri : RuvUri) : Except UriError Unit :=
  if uri.path.length > maxPathSegments then .error .tooManyPathSegments
  else if uri.optionalPathBytes > maxPathBytes then .error .pathTooLong
  else if uri.canonicalLen > maxUriBytes then .error .uriTooLong
  else .ok ()

namespace RuvUri

/-- What stands between the scheme and the query. -/
def hierarchyText (uri : RuvUri) : List Char :=
  uri.authority.text ++ '/' :: uri.tenant.text ++ '/' :: uri.subject.kind.asStr ++
    '/' :: uri.subject.id.text ++ '/' :: uri.collection.asStr ++
    uri.path.flatMap fun segment => '/' :: segment.text

def queryText (uri : RuvUri) : List Char :=
  (match uri.revision with
    | some revision => "?rev=".toList ++ revision.toText
    | none => []) ++
  match uri.view with
  | some view =>
    (if uri.revision.isSome then "&view=".toList else "?view=".toList) ++ view.asStr
  | none => []

def toText (uri : RuvUri) : List Char := scheme ++ uri.hierarchyText ++ uri.queryText

def toString (uri : RuvUri) : String := String.ofList uri.toText

end RuvUri

/-- What the loop over the query's entries has seen. -/
structure QueryState where
  revision : Option Revision
  view : Option ProgressiveView
  sawView : Bool

def parseEntry (state : QueryState) (entry : List Char) : Except UriError QueryState :=
  match splitOnce '=' entry with
  | none => .error .invalidQuery
  | some (key, value) =>
    if key.isEmpty || value.isEmpty || value.contains '=' then .error .invalidQuery
    else if key = "rev".toList then
      if state.revision.isSome then .error .duplicateQueryKey
      else if state.sawView then .error .queryOrder
      else do return { state with revision := some (← Revision.fromStr value) }
    else if key = "view".toList then
      if state.view.isSome then .error .duplicateQueryKey
      else do return { state with view := some (← ProgressiveView.fromStr value), sawView := true }
    else .error .unknownQueryKey

def parseQuery : Option (List Char) → Except UriError (Option Revision × Option ProgressiveView)
  | none => .ok (none, none)
  | some query =>
    if query.isEmpty then .error .invalidQuery
    else
      let entries := query.splitOn '&'
      if decide (entries.length > 2) || entries.any List.isEmpty then .error .invalidQuery
      else do
        let state ← entries.foldlM parseEntry ⟨none, none, false⟩
        return (state.revision, state.view)

def parsePath (parts : List (List Char)) : Except UriError (List PathSegment) :=
  if parts.length > maxPathSegments then .error .tooManyPathSegments
  else if (parts.map byteLength).sum + (parts.length - 1) > maxPathBytes then .error .pathTooLong
  else parts.mapM newPrevalidated

/-- The name that a hierarchy spells, without its query. -/
def parseHierarchy (hierarchy : List Char) : Except UriError RuvUri :=
  if hierarchy.getLast? = some '/' then .error .trailingSlash
  else
    let components := hierarchy.splitOn '/'
    match components with
    | authority :: tenant :: kind :: id :: collection :: path =>
      if components.any List.isEmpty then .error .emptyPathSegment
      else do
        let authority ← newPrevalidated authority
        let tenant ← newPrevalidated tenant
        let kind ← SubjectKind.fromStr kind
        let id ← newPrevalidated id
        let collection ← Collection.fromStr collection
        let path ← parsePath path
        return ⟨authority, tenant, ⟨kind, id⟩, collection, path, none, none⟩
    | _ => .error .missingComponent

def splitQuery (afterScheme : List Char) : List Char × Option (List Char) :=
  match splitOnce '?' afterScheme with
  | some (hierarchy, query) => (hierarchy, some query)
  | none => (afterScheme, none)

namespace RuvUri

def fromStr (value : List Char) : Except UriError RuvUri :=
  if byteLength value > maxUriBytes then .error .uriTooLong
  else do
    rejectForbiddenOctets value
    match stripText scheme value with
    | none => .error .invalidScheme
    | some afterScheme =>
      let parts := splitQuery afterScheme
      let uri ← parseHierarchy parts.1
      let options ← parseQuery parts.2
      let uri : RuvUri := ⟨uri.authority, uri.tenant, uri.subject, uri.collection, uri.path,
        options.1, options.2⟩
      validateComplete uri
      return uri

def parse (value : String) : Except UriError RuvUri := fromStr value.toList

end RuvUri

structure PinnedRuvUri where
  uri : RuvUri
  revision : Revision
deriving DecidableEq

namespace PinnedRuvUri

def tryFrom (uri : RuvUri) : Except UriError PinnedRuvUri :=
  match uri.revision with
  | some revision => .ok ⟨uri, revision⟩
  | none => .error .revisionRequired

end PinnedRuvUri

namespace RuvUri

def withRevision (uri : RuvUri) (revision : Revision) : Except UriError PinnedRuvUri := do
  let uri : RuvUri := { uri with revision := some revision }
  validateComplete uri
  return ⟨uri, revision⟩

def withView (uri : RuvUri) (view : ProgressiveView) : Except UriError RuvUri := do
  let uri : RuvUri := { uri with view := some view }
  validateComplete uri
  return uri

def isPinned (uri : RuvUri) : Bool := uri.revision.isSome

end RuvUri

def Revision.cmp (left right : Revision) : Ordering :=
  compare left.bytes.toList right.bytes.toList

/-- The derived order: part by part. -/
def RuvUri.cmp (left right : RuvUri) : Ordering :=
  (compare left.authority.text right.authority.text).then <|
  (compare left.tenant.text right.tenant.text).then <|
  (compare left.subject.kind right.subject.kind).then <|
  (compare left.subject.id.text right.subject.id.text).then <|
  (compare left.collection right.collection).then <|
  (compare (left.path.map text) (right.path.map text)).then <|
  (compare (left.revision.map (·.bytes.toList)) (right.revision.map (·.bytes.toList))).then <|
  compare left.view right.view

def PinnedRuvUri.cmp (left right : PinnedRuvUri) : Ordering :=
  (left.uri.cmp right.uri).then (left.revision.cmp right.revision)

structure RuvUriBuilder where
  authority : Authority
  tenant : TenantId
  subject : Subject
  collection : Collection
  path : List PathSegment
  revision : Option Revision
  view : Option ProgressiveView

namespace RuvUriBuilder

variable (builder : RuvUriBuilder)

def new (authority : Authority) (tenant : TenantId) (subject : Subject) (collection : Collection) :
    RuvUriBuilder :=
  ⟨authority, tenant, subject, collection, [], none, none⟩

def pathSegment (segment : PathSegment) : RuvUriBuilder :=
  { builder with path := builder.path ++ [segment] }

def withPath (path : List PathSegment) : RuvUriBuilder := { builder with path := path }

def withRevision (revision : Revision) : RuvUriBuilder :=
  { builder with revision := some revision }

def withView (view : ProgressiveView) : RuvUriBuilder := { builder with view := some view }

def build : Except UriError RuvUri := do
  let uri : RuvUri := ⟨builder.authority, builder.tenant, builder.subject, builder.collection,
    builder.path, builder.revision, builder.view⟩
  validateComplete uri
  return uri

def buildPinned : Except UriError PinnedRuvUri := do PinnedRuvUri.tryFrom (← builder.build)

/-- The builders that its methods assemble from checked parts. -/
inductive Assembled : RuvUriBuilder → Prop
  | new (authority : Authority) (tenant : TenantId) (subject : Subject) (collection : Collection) :
      Assembled (.new authority tenant subject collection)
  | pathSegment {builder : RuvUriBuilder} (segment : PathSegment) :
      builder.Assembled → Assembled (builder.pathSegment segment)
  | withPath {builder : RuvUriBuilder} (path : List PathSegment) :
      builder.Assembled → Assembled (builder.withPath path)
  | withRevision {builder : RuvUriBuilder} (revision : Revision) :
      builder.Assembled → Assembled (builder.withRevision revision)
  | withView {builder : RuvUriBuilder} (view : ProgressiveView) :
      builder.Assembled → Assembled (builder.withView view)

end RuvUriBuilder

/-- The names that the public constructors return. -/
inductive RuvUri.Obtainable : RuvUri → Prop
  | parsed {value : String} {uri : RuvUri} : RuvUri.parse value = .ok uri → Obtainable uri
  | built {builder : RuvUriBuilder} {uri : RuvUri} :
      builder.Assembled → builder.build = .ok uri → Obtainable uri
  | builtPinned {builder : RuvUriBuilder} {pinned : PinnedRuvUri} :
      builder.Assembled → builder.buildPinned = .ok pinned → Obtainable pinned.uri
  | withRevision {uri : RuvUri} {revision : Revision} {pinned : PinnedRuvUri} :
      Obtainable uri → uri.withRevision revision = .ok pinned → Obtainable pinned.uri
  | withView {uri viewed : RuvUri} {view : ProgressiveView} :
      Obtainable uri → uri.withView view = .ok viewed → Obtainable viewed

end Rvm.Context
