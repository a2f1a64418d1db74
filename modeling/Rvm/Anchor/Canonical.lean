import Mathlib.Data.List.Perm.Basic
import Rvm.Anchor.KeyOrder
import Rvm.Anchor.Parsing

/-!
Owns the statement that JSON canonicalization is canonical: values that are equal
up to the order of object members, and only these, have one canonical text, the
parser reads it back, and rearranging a text does not change it.
-/

namespace Rvm.Anchor

open Foundation List Json

/-- Equality up to the order of object members, at every depth. -/
inductive SameUpToOrder : Json → Json → Prop
  | null : SameUpToOrder .null .null
  | bool (value : Bool) : SameUpToOrder (.bool value) (.bool value)
  | int (value : Int64) : SameUpToOrder (.int value) (.int value)
  | str (text : List Char) : SameUpToOrder (.str text) (.str text)
  | arr {items items' : List Json} (same : List.Forall₂ SameUpToOrder items items') :
      SameUpToOrder (.arr items) (.arr items')
  | obj {pairs middle pairs' : List (List Char × Json)}
      (keys : pairs.map Prod.fst = middle.map Prod.fst)
      (same : List.Forall₂ (fun pair pair' => SameUpToOrder pair.2 pair'.2) pairs middle)
      (order : middle.Perm pairs') : SameUpToOrder (.obj pairs) (.obj pairs')

mutual

/-- The members of every object in key order. -/
def sorted : Json → Json
  | .arr items => .arr (sortedItems items)
  | .obj pairs => .obj (sortByKey (sortedValues pairs))
  | value => value

def sortedItems : List Json → List Json
  | [] => []
  | item :: rest => sorted item :: sortedItems rest

def sortedValues : List (List Char × Json) → List (List Char × Json)
  | [] => []
  | (key, value) :: rest => (key, sorted value) :: sortedValues rest

end

theorem sortedItems_eq_map (items : List Json) : sortedItems items = items.map sorted := by
  induction items with
  | nil => rfl
  | cons item rest ih => rw [sortedItems, ih, map_cons]

theorem sortedValues_eq_map (pairs : List (List Char × Json)) :
    sortedValues pairs = pairs.map fun pair => (pair.1, sorted pair.2) := by
  induction pairs with
  | nil => rfl
  | cons pair rest ih => rw [sortedValues, ih, map_cons]

theorem sorted_obj (pairs : List (List Char × Json)) : sorted (.obj pairs) =
    .obj ((sortByKey pairs).map fun pair => (pair.1, sorted pair.2)) := by
  rw [sorted, sortedValues_eq_map, sortByKey_map]

theorem same_sorted (value : Json) : SameUpToOrder value (sorted value) := by
  induction value using within with
  | null => exact .null
  | bool value => exact .bool value
  | int value => exact .int value
  | str text => exact .str text
  | arr items ih =>
    rw [sorted, sortedItems_eq_map]
    exact .arr (forall₂_map_right_iff.mpr (forall₂_same.mpr ih))
  | obj pairs ih =>
    rw [sorted, sortedValues_eq_map]
    refine .obj ?_ ?_ (sortByKey_perm _).symm
    · rw [map_map]
      rfl
    · exact forall₂_map_right_iff.mpr (forall₂_same.mpr ih)

variable {α β : Type} {value other : Json} {first second : List α} {change : α → β}

theorem forall_iff_of_forall₂ {relation : α → α → Prop} {predicate : α → Prop}
    (related : List.Forall₂ relation first second)
    (same : ∀ left ∈ first, ∀ right, relation left right → (predicate left ↔ predicate right)) :
    (∀ left ∈ first, predicate left) ↔ ∀ right ∈ second, predicate right := by
  induction related with
  | nil => simp
  | cons head _ ih =>
    rw [forall_mem_cons, forall_mem_cons, same _ mem_cons_self _ head,
      ih fun left member => same left (mem_cons_of_mem _ member)]

theorem distinctKeys_iff_of_same (same : SameUpToOrder value other) :
    distinctKeys value = true ↔ distinctKeys other = true := by
  induction value using within generalizing other with
  | null | bool | int | str => cases same; rfl
  | arr items ih =>
    cases same with
    | arr same =>
      rw [distinctKeys_arr, distinctKeys_arr]
      exact forall_iff_of_forall₂ same fun item member other => ih item member
  | obj pairs ih =>
    cases same with
    | obj keys same order =>
      rw [distinctKeys_obj, distinctKeys_obj, keys, (order.map Prod.fst).nodup_iff]
      refine and_congr Iff.rfl ((forall_iff_of_forall₂ same fun pair member other =>
        ih pair member).trans ?_)
      exact forall_congr' fun pair => imp_congr_left order.mem_iff

theorem map_eq_of_forall₂ {α β : Type} {relation : α → α → Prop} {change : α → β}
    {first second : List α} (related : List.Forall₂ relation first second)
    (same : ∀ left ∈ first, ∀ right, relation left right → change left = change right) :
    first.map change = second.map change := by
  induction related with
  | nil => rfl
  | cons head _ ih =>
    rw [map_cons, map_cons, same _ mem_cons_self _ head,
      ih fun left member => same left (mem_cons_of_mem _ member)]

theorem map_values_congr {κ : Type} {pairs others : List (κ × α)}
    (keys : pairs.map Prod.fst = others.map Prod.fst)
    (values : (pairs.map fun pair => change pair.2) = others.map fun pair => change pair.2) :
    (pairs.map fun pair => (pair.1, change pair.2)) =
      others.map fun pair => (pair.1, change pair.2) := by
  calc (pairs.map fun pair => (pair.1, change pair.2)) =
      (pairs.map Prod.fst).zip (pairs.map fun pair => change pair.2) := zip_map'.symm
    _ = (others.map Prod.fst).zip (others.map fun pair => change pair.2) := by rw [keys, values]
    _ = others.map fun pair => (pair.1, change pair.2) := zip_map'

theorem sorted_eq_of_same (distinct : distinctKeys value = true)
    (same : SameUpToOrder value other) : sorted value = sorted other := by
  induction value using within generalizing other with
  | null | bool | int | str => cases same; rfl
  | arr items ih =>
    cases same with
    | arr same =>
      rw [distinctKeys_arr] at distinct
      rw [sorted, sorted, sortedItems_eq_map, sortedItems_eq_map]
      rw [map_eq_of_forall₂ same fun item member other related =>
        ih item member (distinct item member) related]
  | obj pairs ih =>
    cases same with
    | obj keys same order =>
      rw [distinctKeys_obj] at distinct
      have values := @map_eq_of_forall₂ _ _ _ (fun pair => sorted pair.2) _ _ same
        fun pair member other related =>
          ih pair member (distinct.2 pair member) related
      rw [sorted, sorted, sortedValues_eq_map, sortedValues_eq_map,
        map_values_congr keys values]
      refine congrArg obj (sortByKey_eq_of_perm (order.map _) ?_)
      rw [map_map]
      exact keys ▸ distinct.1

/-- Lists with rearranged images: one of them rearranged has the other's images. -/
theorem exists_middle (order : (first.map change).Perm (second.map change)) :
    ∃ middle : List α, first.map change = middle.map change ∧ middle.Perm second := by
  have images : List.Forall₂ (fun image right => image = change right) (second.map change)
      second := forall₂_map_left_iff.mpr (forall₂_same.mpr fun _ _ => rfl)
  obtain ⟨middle, related, rearranged⟩ := perm_comp_forall₂ order images
  refine ⟨middle, ?_, rearranged⟩
  simpa using @map_eq_of_forall₂ _ _ _ id _ (middle.map change)
    (forall₂_map_right_iff.mpr related) fun _ _ _ same => same

theorem forall₂_of_map_eq {relation : α → α → Prop} (equal : first.map change = second.map change)
    (related : ∀ left ∈ first, ∀ right, change left = change right → relation left right) :
    List.Forall₂ relation first second := by
  induction first generalizing second with
  | nil =>
    rw [map_eq_nil_iff.mp equal.symm]
    exact .nil
  | cons left others ih =>
    cases second with
    | nil => cases equal
    | cons right later =>
      obtain ⟨head, tail⟩ := List.cons.inj equal
      exact .cons (related left mem_cons_self right head) (ih tail
        fun other member => related other (mem_cons_of_mem left member))

theorem same_of_sorted_eq (equal : sorted value = sorted other) : SameUpToOrder value other := by
  induction value using within generalizing other with
  | null =>
    cases other <;> cases equal
    exact .null
  | bool value =>
    cases other <;> cases equal
    exact .bool value
  | int value =>
    cases other <;> cases equal
    exact .int value
  | str text =>
    cases other <;> cases equal
    exact .str text
  | arr items ih =>
    cases other with
    | arr others =>
      rw [sorted, sorted, sortedItems_eq_map, sortedItems_eq_map] at equal
      exact .arr (forall₂_of_map_eq (arr.inj equal) fun item member _ same =>
        ih item member same)
    | _ => cases equal
  | obj pairs ih =>
    cases other with
    | obj others =>
      rw [sorted, sorted, sortedValues_eq_map, sortedValues_eq_map] at equal
      have order := (sortByKey_perm _).symm.trans
        ((List.Perm.of_eq (obj.inj equal)).trans (sortByKey_perm _))
      obtain ⟨middle, images, rearranged⟩ := exists_middle order
      refine .obj ?_ (forall₂_of_map_eq images fun pair member other same =>
        ih pair member (Prod.mk.inj same).2) rearranged
      simpa [Function.comp_def] using congrArg (List.map Prod.fst) images
    | _ => cases equal

theorem canonicalPiece_spells (char : Char) : Spells (escapeChar char) char := by
  unfold escapeChar
  split
  case isTrue quote => exact .short (by rw [quote]; rfl)
  split
  case isTrue backslash => exact .short (by rw [backslash]; rfl)
  split
  case isTrue same => exact .short (by rw [same]; rfl)
  split
  case isTrue same => exact .short (by rw [same]; rfl)
  split
  case isTrue same => exact .short (by rw [same]; rfl)
  split
  case isTrue same => exact .short (by rw [same]; rfl)
  split
  case isTrue same => exact .short (by rw [same]; rfl)
  split
  case isTrue control =>
    have digits : ∀ value < 0x20, hexUnit? (lowerHex4 value) = some value := by decide
    exact .unit (digits char.toNat control) (utf16Units_eq_one.mpr ⟨rfl, by omega⟩)
  case isFalse quote backslash _ _ _ _ _ control => exact .plain quote backslash control

def canonicalPiece (char : Char) : Piece := ⟨escapeChar char, char, canonicalPiece_spells char⟩

/-- A value as a token tree without whitespace, in the order of its members. -/
def Spaced.tight {α : Type} (body : α) : Spaced α := ⟨.empty, body, .empty⟩

mutual

def compact : Json → Tree
  | .null => .null
  | .bool value => .bool value
  | .int value => .int value
  | .str text => .str (text.map canonicalPiece)
  | .arr items => .arr .empty (compactItems items)
  | .obj pairs => .obj .empty (compactMembers pairs)

def compactItems : List Json → List (Spaced Tree)
  | [] => []
  | item :: rest => .tight (compact item) :: compactItems rest

def compactMembers : List (List Char × Json) → List (Spaced (List Piece) × Spaced Tree)
  | [] => []
  | (key, value) :: rest =>
    (.tight (key.map canonicalPiece), .tight (compact value)) :: compactMembers rest

end

section Compact

variable {pairs : List (List Char × Json)}

theorem compactItems_eq_map (items : List Json) :
    compactItems items = items.map fun item => .tight (compact item) := by
  induction items with
  | nil => rfl
  | cons item rest ih => rw [compactItems, ih, map_cons]

theorem compactMembers_eq_map : compactMembers pairs = pairs.map fun pair =>
    (.tight (pair.1.map canonicalPiece), .tight (compact pair.2)) := by
  induction pairs with
  | nil => rfl
  | cons pair rest ih => rw [compactMembers, ih, map_cons]

theorem pieces_char (text : List Char) : (text.map canonicalPiece).map Piece.char = text := by
  rw [map_map]
  exact map_id text

theorem pieces_text (text : List Char) : stringToken (text.map canonicalPiece) =
    writeEscaped text := by
  rw [stringToken, writeEscaped, flatMap_map]
  rfl

theorem compact_value (value : Json) : (compact value).value = value := by
  induction value using within with
  | null => rfl
  | bool => rfl
  | int => rfl
  | str text => rw [compact, Tree.value, pieces_char]
  | arr items ih =>
    rw [compact, Tree.value, itemValues_eq_map, compactItems_eq_map, map_map]
    exact congrArg arr ((map_congr_left ih).trans (map_id items))
  | obj pairs ih =>
    rw [compact, Tree.value, memberValues_eq_map, compactMembers_eq_map, map_map]
    refine congrArg obj ((map_congr_left fun pair member => ?_).trans
      (map_id pairs))
    exact Prod.ext (pieces_char pair.1) (ih pair member)

theorem memberTexts_compact : memberTexts (compactMembers pairs) =
    pairs.map fun pair => writeEscaped pair.1 ++ ':' :: (compact pair.2).text := by
  induction pairs with
  | nil => rfl
  | cons pair rest ih =>
    rw [compactMembers, Spaced.tight, Spaced.tight, memberTexts, ih, pieces_text, map_cons]
    simp [Gap.empty]

theorem listed_empty (texts : List (List Char)) : listed .empty texts = joined texts := by
  unfold listed
  split
  case isTrue none => rw [none]; rfl
  case isFalse => rfl

theorem compact_text (value : Json) : (compact (sorted value)).text = value.canonicalize := by
  unfold canonicalize
  induction value using within with
  | null => rfl
  | bool value => cases value <;> rfl
  | int => rfl
  | str text => simp [sorted, compact, Tree.text, pieces_text, writeCanonical]
  | arr items ih =>
    rw [sorted, compact, Tree.text, listed_empty, writeCanonical, itemTexts_eq_map,
      compactItems_eq_map, sortedItems_eq_map, writeItems_eq_map, map_map, map_map]
    rw [map_congr_left fun item member => ?_]
    simpa [Spaced.tight, Gap.empty] using ih item member
  | obj pairs ih =>
    rw [sorted_obj, compact, Tree.text, listed_empty, writeCanonical, memberTexts_compact,
      writeValues_eq_map, sortByKey_map, map_map, map_map]
    rw [map_congr_left fun pair member => ?_]
    exact congrArg (writeEscaped pair.1 ++ ':' :: ·)
      (ih pair (mem_sortByKey.mp member))

end Compact

theorem parse_canonicalize (distinct : distinctKeys value = true) :
    parse value.canonicalize = .ok (sorted value) := by
  have text : Document.text (.tight (compact (sorted value))) = value.canonicalize := by
    rw [← compact_text]
    simp [Document.text, Spaced.tight, Gap.empty]
  have sortedDistinct := (distinctKeys_iff_of_same (same_sorted value)).mp distinct
  rw [← text, parse_document]
  simp only [Spaced.tight, compact_value, if_pos sortedDistinct]

theorem canonicalize_eq_of_same (distinct : distinctKeys value = true)
    (same : SameUpToOrder value other) : value.canonicalize = other.canonicalize := by
  rw [← compact_text, ← compact_text, sorted_eq_of_same distinct same]

theorem same_of_rearranged {tree other : Tree} (rearranged : tree.Rearranged other) :
    SameUpToOrder tree.value other.value := by
  induction tree using Tree.within generalizing other with
  | null => cases rearranged; exact .null
  | bool value => cases rearranged; exact .bool value
  | int value => cases rearranged; exact .int value
  | str pieces => cases rearranged; exact .str _
  | arr inner items ih =>
    cases rearranged with
    | arr same =>
      rw [Tree.value, Tree.value, itemValues_eq_map, itemValues_eq_map]
      refine .arr (forall₂_map_left_iff.mpr (forall₂_map_right_iff.mpr ?_))
      exact ((forall₂_and_left _ _).mpr ⟨ih, same⟩).imp
        fun _ _ both => both.1 both.2
  | obj inner members ih =>
    cases rearranged with
    | obj keys same order =>
      rw [Tree.value, Tree.value, memberValues_eq_map, memberValues_eq_map]
      refine .obj ?_ (forall₂_map_left_iff.mpr (forall₂_map_right_iff.mpr ?_))
        (order.map _)
      · simpa [Function.comp_def] using congrArg (List.map (List.map Piece.char)) keys
      · exact ((forall₂_and_left _ _).mpr ⟨ih, same⟩).imp
          fun _ _ both => both.1 both.2

theorem parse_rearranged {document other : Document} (rearranged : document.Rearranged other) :
    (parse document.text).map canonicalize = (parse other.text).map canonicalize := by
  have same := same_of_rearranged rearranged
  rw [parse_document, parse_document]
  by_cases distinct : distinctKeys document.body.value = true
  · rw [if_pos distinct, if_pos ((distinctKeys_iff_of_same same).mp distinct)]
    exact congrArg Except.ok (canonicalize_eq_of_same distinct same)
  · rw [if_neg distinct, if_neg fun others => distinct ((distinctKeys_iff_of_same same).mpr others)]

/-- One text for each value up to the order of members, read back as that value, whatever the
whitespace and order it was written in. -/
theorem canonicalizationCanonical :
    (∀ value, distinctKeys value = true → ∃ read, Json.parse value.canonicalize = .ok read ∧
      SameUpToOrder value read ∧ read.canonicalize = value.canonicalize) ∧
    (∀ value other, distinctKeys value = true → distinctKeys other = true →
      (value.canonicalize = other.canonicalize ↔ SameUpToOrder value other)) ∧
    (∀ text value, Json.parse text = .ok value → distinctKeys value = true) ∧
    (∀ text value, Json.parse text = .ok value → ∃ document : Document, document.text = text) ∧
    ∀ document other : Document, document.Rearranged other →
      (Json.parse document.text).map Json.canonicalize =
        (Json.parse other.text).map Json.canonicalize := by
  refine ⟨fun value distinct => ?_, fun value other distinct otherDistinct => ⟨fun equal => ?_,
    canonicalize_eq_of_same distinct⟩, fun text value parsed => ?_, fun text value parsed => ?_,
    fun document other => parse_rearranged⟩
  · exact ⟨sorted value, parse_canonicalize distinct, same_sorted value,
      (canonicalize_eq_of_same distinct (same_sorted value)).symm⟩
  · have read := parse_canonicalize distinct
    rw [equal, parse_canonicalize otherDistinct] at read
    exact same_of_sorted_eq (Except.ok.inj read).symm
  · obtain ⟨_, _, _, distinct⟩ := parse_sound parsed
    exact distinct
  · obtain ⟨document, spelled, _⟩ := parse_sound parsed
    exact ⟨document, spelled⟩

/-- An object with two members and one in the other order have one canonical text. -/
theorem canonicalizationCanonical_swapped :
    Json.canonicalize (.obj [(['b'], .int 1), (['a'], .null)]) =
      Json.canonicalize (.obj [(['a'], .null), (['b'], .int 1)]) :=
  (canonicalizationCanonical.2.1 _ _ (by decide) (by decide)).mpr
    (.obj rfl (.cons (.int 1) (.cons .null .nil)) (.swap _ _ _))

example : canonicalize (.obj [(['b'], .int 1), (['a'], .arr [.bool true, .null])]) =
    "\x7b\"a\":[true,null],\"b\":1\x7d".toList := by rfl

end Rvm.Anchor
