import Rvm.Anchor.Tokens

/-!
Owns the parser of `rvm-anchor/src/jcs.rs` against the grammar: every document is
read as its value, unless one of its objects repeats a key, and every text that is
read is a document.
-/

namespace Rvm.Anchor

open Foundation List Tree

variable {text rest : List Char}

/-! ### Rounds of the loops -/

section Rounds

-- The equations of the two loops are derived once, before the lemmas that unfold them.
attribute [local simp] parseItems parseMembers

variable {fuel : Nat} {items : List Json} {item : Json} {pairs : List (List Char × Json)}
  {key afterKey afterColon after : List Char} {error : JsonError}

theorem any_key_eq_false (fresh : key ∉ pairs.map Prod.fst) :
    (pairs.any fun pair => pair.1 = key) = false :=
  any_eq_false.mpr fun pair member same =>
    fresh (mem_map.mpr ⟨pair, member, of_decide_eq_true same⟩)

theorem parseItems_error (failed : parseValue fuel text = .error error) :
    parseItems (fuel + 1) items text = .error error := by
  rw [parseItems, failed]
  rfl

theorem parseItems_comma (read : parseValue fuel text = .ok (item, after))
    (comma : skipWs after = ',' :: rest) :
    parseItems (fuel + 1) items text = parseItems fuel (items ++ [item]) rest := by
  simp [read, bind, Except.bind, comma]

theorem parseItems_close (read : parseValue fuel text = .ok (item, after))
    (close : skipWs after = ']' :: rest) :
    parseItems (fuel + 1) items text = .ok (.arr (items ++ [item]), rest) := by
  simp [read, bind, Except.bind, close]

variable (quote : skipWs text = '"' :: rest) (readKey : parseString rest = .ok (key, afterKey))

include quote readKey

theorem parseMembers_repeated (repeated : key ∈ pairs.map Prod.fst) :
    parseMembers (fuel + 1) pairs text = .error .duplicateKey := by
  have found : (pairs.any fun pair => pair.1 = key) = true := by simpa using repeated
  simp [expect, bind, Except.bind, quote, readKey, found]

variable (fresh : key ∉ pairs.map Prod.fst) (colon : skipWs afterKey = ':' :: afterColon)

include fresh colon

theorem parseMembers_error (failed : parseValue fuel afterColon = .error error) :
    parseMembers (fuel + 1) pairs text = .error error := by
  simp [expect, bind, Except.bind, quote, readKey, any_key_eq_false fresh, colon, failed]

theorem parseMembers_comma {value : Json} {later : List Char}
    (read : parseValue fuel afterColon = .ok (value, after)) (comma : skipWs after = ',' :: later) :
    parseMembers (fuel + 1) pairs text = parseMembers fuel (pairs ++ [(key, value)]) later := by
  simp [expect, bind, Except.bind, quote, readKey, any_key_eq_false fresh, colon, read, comma]

theorem parseMembers_close {value : Json} {later : List Char}
    (read : parseValue fuel afterColon = .ok (value, after)) (close : skipWs after = '}' :: later) :
    parseMembers (fuel + 1) pairs text = .ok (.obj (pairs ++ [(key, value)]), later) := by
  simp [expect, bind, Except.bind, quote, readKey, any_key_eq_false fresh, colon, read, close]

end Rounds

/-! ### Documents are read -/

/-- What the parser returns for a value and what follows it. -/
def outcome (value : Json) (rest : List Char) : Except JsonError (Json × List Char) :=
  if distinctKeys value then .ok (value, rest) else .error .duplicateKey

theorem parseValue_gap (gap : Gap) (fuel : Nat) :
    parseValue fuel (gap.text ++ text) = parseValue fuel text := by
  cases fuel with
  | zero => rfl
  | succ fuel => simp only [parseValue, skipWs_gap]

theorem joined_cons_cons (first second : List Char) (others : List (List Char)) :
    joined (first :: second :: others) = first ++ ',' :: joined (second :: others) := by
  rw [joined, joined, intercalate_cons, intercalate_cons, flatMap_cons]
  rfl

theorem joined_items (item : Spaced Tree) {others : List (Spaced Tree)} (more : others ≠ []) :
    joined (itemTexts (item :: others)) = item.before.text ++ item.body.text ++ item.after.text ++
      ',' :: joined (itemTexts others) := by
  obtain ⟨second, later, rfl⟩ := exists_cons_of_ne_nil more
  rw [itemTexts, itemTexts, joined_cons_cons]

theorem joined_members (key : Spaced (List Piece)) (item : Spaced Tree)
    {others : List (Spaced (List Piece) × Spaced Tree)} (more : others ≠ []) :
    joined (memberTexts ((key, item) :: others)) =
      key.before.text ++ stringToken key.body ++ key.after.text ++
        ':' :: (item.before.text ++ item.body.text ++ item.after.text) ++
      ',' :: joined (memberTexts others) := by
  obtain ⟨second, later, rfl⟩ := exists_cons_of_ne_nil more
  rw [memberTexts, memberTexts, joined_cons_cons]

theorem joined_singleton (first : List Char) : joined [first] = first := by
  rw [joined, intercalate_cons, flatMap_nil, append_nil]

/-- What the parser promises of a tree. -/
def Tree.ReadBack (tree : Tree) : Prop :=
  ∀ (fuel : Nat) (rest : List Char), Ends rest → 3 * (tree.text ++ rest).length + 1 ≤ fuel →
    parseValue fuel (tree.text ++ rest) = outcome tree.value rest

theorem Tree.ReadBack.of_succ {tree : Tree} (round : ∀ (fuel : Nat) (rest : List Char), Ends rest →
    3 * (tree.text ++ rest).length ≤ fuel →
    parseValue (fuel + 1) (tree.text ++ rest) = outcome tree.value rest) : tree.ReadBack := by
  intro fuel rest ends enough
  obtain _ | fuel := fuel
  · omega
  exact round fuel rest ends (Nat.le_of_succ_le_succ enough)

theorem Tree.ReadBack.spaced {item : Spaced Tree} (readBack : item.body.ReadBack) {fuel : Nat}
    (ends : Ends rest)
    (enough : 3 * (item.before.text ++ item.body.text ++ item.after.text ++ rest).length + 1 ≤
      fuel) :
    parseValue fuel (item.before.text ++ item.body.text ++ item.after.text ++ rest) =
      outcome item.body.value (item.after.text ++ rest) := by
  rw [append_assoc, append_assoc, parseValue_gap]
  refine readBack fuel _ (ends.gap item.after) (Nat.le_trans ?_ enough)
  simp only [length_append]
  omega

theorem Ends.of_mark {mark : Char} (isMark : mark = ',' ∨ mark = ']' ∨ mark = '}') :
    Ends (mark :: rest) := by
  intro char head
  obtain rfl := Option.some.inj head
  exact .inr isMark

theorem skipWs_mark {mark : Char} (gap : Gap) (token : isWs mark = false) :
    skipWs (gap.text ++ mark :: rest) = mark :: rest := by
  rw [skipWs_gap, skipWs_cons token]

variable {fuel : Nat} {char : Char} {value : Json}

theorem parseItems_texts {items : List (Spaced Tree)} (nonempty : items ≠ [])
    (readBack : ∀ item ∈ items, item.body.ReadBack) (read : List Json)
    (readDistinct : ∀ value ∈ read, distinctKeys value = true)
    (enough : 3 * (joined (itemTexts items) ++ ']' :: rest).length + 2 ≤ fuel) :
    parseItems fuel read (joined (itemTexts items) ++ ']' :: rest) =
      outcome (.arr (read ++ itemValues items)) rest := by
  induction items generalizing fuel read with
  | nil => exact absurd rfl nonempty
  | cons item others ih =>
    have itemBack := readBack item mem_cons_self
    obtain _ | fuel := fuel
    · omega
    obtain ⟨mark, later, isMark, shape, final⟩ : ∃ mark later,
        (mark = ',' ∨ mark = ']' ∨ mark = '}') ∧
        joined (itemTexts (item :: others)) ++ ']' :: rest =
          item.before.text ++ item.body.text ++ item.after.text ++ mark :: later ∧
        (others = [] ∧ mark = ']' ∧ later = rest ∨
          others ≠ [] ∧ mark = ',' ∧ later = joined (itemTexts others) ++ ']' :: rest) := by
      cases others with
      | nil =>
        refine ⟨']', rest, by simp, ?_, .inl ⟨rfl, rfl, rfl⟩⟩
        rw [itemTexts, itemTexts, joined_singleton]
      | cons second others =>
        refine ⟨',', _, by simp, ?_, .inr ⟨cons_ne_nil _ _, rfl, rfl⟩⟩
        rw [joined_items item (cons_ne_nil second others)]
        simp
    rw [shape] at enough ⊢
    have readItem := @Tree.ReadBack.spaced (mark :: later) item itemBack fuel (.of_mark isMark)
      (by omega)
    by_cases distinct : distinctKeys item.body.value
    · rw [outcome, if_pos distinct] at readItem
      rcases final with ⟨rfl, rfl, rfl⟩ | ⟨more, rfl, rfl⟩
      · have all : distinctKeys (.arr (read ++ [item.body.value])) = true := by
          rw [distinctKeys_arr, forall_mem_append]
          exact ⟨readDistinct, by simpa using distinct⟩
        rw [parseItems_close readItem (skipWs_mark item.after rfl)]
        exact (if_pos all).symm
      · rw [parseItems_comma readItem (skipWs_mark item.after rfl),
          ih more (fun other member =>
            readBack other (mem_cons_of_mem item member)) _ _ (by
              simp only [length_append, length_cons] at enough ⊢
              omega), itemValues]
        · simp
        · rw [forall_mem_append]
          exact ⟨readDistinct, by simpa using distinct⟩
    · rw [outcome, if_neg distinct] at readItem
      have repeated : ¬ distinctKeys (.arr (read ++ itemValues (item :: others))) = true := by
        rw [distinctKeys_arr]
        exact fun all => distinct (all _ (by simp [itemValues]))
      rw [parseItems_error readItem, outcome, if_neg repeated]

theorem parseMembers_texts {members : List (Spaced (List Piece) × Spaced Tree)}
    (nonempty : members ≠ []) (readBack : ∀ member ∈ members, member.2.body.ReadBack)
    (read : List (List Char × Json)) (readDistinct : distinctKeys (.obj read) = true)
    (enough : 3 * (joined (memberTexts members) ++ '}' :: rest).length + 2 ≤ fuel) :
    parseMembers fuel read (joined (memberTexts members) ++ '}' :: rest) =
      outcome (.obj (read ++ memberValues members)) rest := by
  induction members generalizing fuel read with
  | nil => exact absurd rfl nonempty
  | cons member others ih =>
    obtain ⟨key, item⟩ := member
    have itemBack := readBack (key, item) mem_cons_self
    obtain _ | fuel := fuel
    · omega
    obtain ⟨mark, later, isMark, shape, final⟩ : ∃ mark later,
        (mark = ',' ∨ mark = ']' ∨ mark = '}') ∧
        joined (memberTexts ((key, item) :: others)) ++ '}' :: rest =
          key.before.text ++ (stringToken key.body ++ (key.after.text ++ ':' ::
            (item.before.text ++ item.body.text ++ item.after.text ++ mark :: later))) ∧
        (others = [] ∧ mark = '}' ∧ later = rest ∨
          others ≠ [] ∧ mark = ',' ∧ later = joined (memberTexts others) ++ '}' :: rest) := by
      cases others with
      | nil =>
        refine ⟨'}', rest, by simp, ?_, .inl ⟨rfl, rfl, rfl⟩⟩
        rw [memberTexts, memberTexts, joined_singleton]
        simp
      | cons second others =>
        refine ⟨',', _, by simp, ?_, .inr ⟨cons_ne_nil _ _, rfl, rfl⟩⟩
        rw [joined_members key item (cons_ne_nil second others)]
        simp
    rw [shape] at enough ⊢
    have quote : skipWs (key.before.text ++ (stringToken key.body ++ (key.after.text ++ ':' ::
        (item.before.text ++ item.body.text ++ item.after.text ++ mark :: later)))) =
        '"' :: (stringToken key.body ++ (key.after.text ++ ':' ::
          (item.before.text ++ item.body.text ++ item.after.text ++ mark :: later))).tail := by
      rw [skipWs_gap]
      exact skipWs_cons rfl
    have readKey := @parseString_token (key.after.text ++ ':' ::
      (item.before.text ++ item.body.text ++ item.after.text ++ mark :: later)) key.body
    have colon := @skipWs_mark (item.before.text ++ item.body.text ++ item.after.text ++
      mark :: later) ':' key.after rfl
    have readItem := @Tree.ReadBack.spaced (mark :: later) item itemBack fuel (.of_mark isMark) (by
      simp only [length_append, length_cons] at enough ⊢
      omega)
    rw [distinctKeys_obj] at readDistinct
    by_cases fresh : key.body.map Piece.char ∈ read.map Prod.fst
    · have repeated : ¬ distinctKeys
          (.obj (read ++ memberValues ((key, item) :: others))) = true := by
        rw [distinctKeys_obj, map_append, memberValues, map_cons]
        exact fun all => disjoint_of_nodup_append all.1 fresh mem_cons_self
      rw [parseMembers_repeated quote readKey fresh, outcome, if_neg repeated]
    by_cases distinct : distinctKeys item.body.value
    · have all : distinctKeys
          (.obj (read ++ [(key.body.map Piece.char, item.body.value)])) = true := by
        rw [distinctKeys_obj, map_append, forall_mem_append]
        refine ⟨List.Nodup.append readDistinct.1 (nodup_singleton _) ?_, readDistinct.2, ?_⟩
        · simpa using fresh
        · simpa using distinct
      rw [outcome, if_pos distinct] at readItem
      rcases final with ⟨rfl, rfl, rfl⟩ | ⟨more, rfl, rfl⟩
      · rw [parseMembers_close quote readKey fresh colon readItem (skipWs_mark item.after rfl)]
        exact (if_pos all).symm
      · rw [parseMembers_comma quote readKey fresh colon readItem (skipWs_mark item.after rfl),
          ih more (fun other member =>
            readBack other (mem_cons_of_mem _ member)) _ all (by
              simp only [length_append, length_cons] at enough ⊢
              omega), memberValues]
        simp
    · rw [outcome, if_neg distinct] at readItem
      have repeated : ¬ distinctKeys
          (.obj (read ++ memberValues ((key, item) :: others))) = true := by
        rw [distinctKeys_obj]
        exact fun all => distinct (all.2 (key.body.map Piece.char, item.body.value)
          (by simp [memberValues]))
      rw [parseMembers_error quote readKey fresh colon readItem, outcome, if_neg repeated]

/-! ### Trees -/

theorem Tree.text_head (tree : Tree) : ∃ char others, tree.text = char :: others ∧
    isWs char = false ∧ char ≠ ']' := by
  cases tree with
  | null => exact ⟨_, _, rfl, rfl, by decide⟩
  | bool value => cases value <;> exact ⟨_, _, rfl, rfl, by decide⟩
  | int value =>
    obtain ⟨char, others, shape, rfl | digit⟩ := displayInt_head value
    · exact ⟨_, others, shape, rfl, by decide⟩
    · refine ⟨char, others, shape, Bool.eq_false_iff.mpr fun blank => ?_, ?_⟩
      · simp only [isWs, Bool.or_eq_true, decide_eq_true_eq] at blank
        rcases blank with ((rfl | rfl) | rfl) | rfl <;> simp at digit
      · rintro rfl
        simp at digit
  | str pieces | arr inner items | obj inner members => exact ⟨_, _, rfl, rfl, by decide⟩

theorem skipWs_skipWs (text : List Char) : skipWs (skipWs text) = skipWs text := by
  obtain ⟨gap, shape⟩ := gap_skipWs text
  calc skipWs (skipWs text) = skipWs (gap.text ++ skipWs text) := (skipWs_gap gap).symm
    _ = skipWs text := by rw [← shape]

theorem parseItems_skipWs (fuel : Nat) (items : List Json) :
    parseItems fuel items (skipWs text) = parseItems fuel items text := by
  cases fuel with
  | zero => rfl
  | succ fuel =>
    have same : parseValue fuel (skipWs text) = parseValue fuel text := by
      cases fuel with
      | zero => rfl
      | succ fuel => simp only [parseValue, skipWs_skipWs]
    simp only [parseItems, same]

theorem parseMembers_skipWs (fuel : Nat) (pairs : List (List Char × Json)) :
    parseMembers fuel pairs (skipWs text) = parseMembers fuel pairs text := by
  cases fuel with
  | zero => rfl
  | succ fuel => simp only [parseMembers, skipWs_skipWs]

theorem parseArray_text (inner : Gap) {items : List (Spaced Tree)}
    (readBack : ∀ item ∈ items, item.body.ReadBack) {fuel : Nat}
    (enough : 3 * (listed inner (itemTexts items) ++ ']' :: rest).length + 3 ≤ fuel) :
    parseArray fuel (listed inner (itemTexts items) ++ ']' :: rest) =
      outcome (.arr (itemValues items)) rest := by
  obtain _ | fuel := fuel
  · omega
  cases items with
  | nil =>
    have empty : listed inner (itemTexts []) = inner.text := rfl
    rw [empty, parseArray, skipWs_mark inner rfl]
    rfl
  | cons item others =>
    have full : listed inner (itemTexts (item :: others)) =
        joined (itemTexts (item :: others)) := if_neg (by simp [itemTexts])
    have notClosed :
        (skipWs (joined (itemTexts (item :: others)) ++ ']' :: rest)).head? ≠ some ']' := by
      obtain ⟨char, tail, shape, token, notClose⟩ := item.body.text_head
      rw [itemTexts, joined, intercalate_cons, shape]
      simp only [append_assoc, cons_append]
      rw [skipWs_gap, skipWs_cons token]
      simpa using notClose
    rw [full] at enough ⊢
    simp only [parseArray, if_neg notClosed, parseItems_skipWs]
    exact parseItems_texts (cons_ne_nil _ _) readBack [] (by simp) (by omega)

theorem parseObject_text (inner : Gap) {members : List (Spaced (List Piece) × Spaced Tree)}
    (readBack : ∀ member ∈ members, member.2.body.ReadBack) {fuel : Nat}
    (enough : 3 * (listed inner (memberTexts members) ++ '}' :: rest).length + 3 ≤ fuel) :
    parseObject fuel (listed inner (memberTexts members) ++ '}' :: rest) =
      outcome (.obj (memberValues members)) rest := by
  obtain _ | fuel := fuel
  · omega
  cases members with
  | nil =>
    have empty : listed inner (memberTexts []) = inner.text := rfl
    rw [empty, parseObject, skipWs_mark inner rfl]
    rfl
  | cons member others =>
    have full : listed inner (memberTexts (member :: others)) =
        joined (memberTexts (member :: others)) := if_neg (by simp [memberTexts])
    have notClosed :
        (skipWs (joined (memberTexts (member :: others)) ++ '}' :: rest)).head? ≠ some '}' := by
      rw [memberTexts, joined, intercalate_cons, stringToken]
      simp only [append_assoc, cons_append]
      rw [skipWs_gap, skipWs_cons rfl]
      simp
    rw [full] at enough ⊢
    simp only [parseObject, if_neg notClosed, parseMembers_skipWs]
    exact parseMembers_texts (cons_ne_nil _ _) readBack [] (by simp) (by omega)

theorem parseValue_number (starts : char = '-' ∨ char.isDigit = true) (fuel : Nat) :
    parseValue (fuel + 1) (char :: rest) = parseNumber (char :: rest) := by
  have token : isWs char = false := by
    refine Bool.eq_false_iff.mpr fun blank => ?_
    simp only [isWs, Bool.or_eq_true, decide_eq_true_eq] at blank
    rcases blank with ((rfl | rfl) | rfl) | rfl <;> simp at starts
  have other : ∀ mark : Char, mark ≠ '-' → mark.isDigit = false → char ≠ mark := by
    rintro mark notMinus notDigit rfl
    rcases starts with minus | digit
    · exact notMinus minus
    · simp [notDigit] at digit
  have object := other '{' (by decide) rfl
  have array := other '[' (by decide) rfl
  have string := other '"' (by decide) rfl
  have true_ := other 't' (by decide) rfl
  have false_ := other 'f' (by decide) rfl
  have null := other 'n' (by decide) rfl
  simp [parseValue, skipWs_cons token, object, array, string, true_, false_, null, starts]

theorem parseValue_string (pieces : List Piece) (fuel : Nat) :
    parseValue (fuel + 1) (stringToken pieces ++ rest) =
      .ok (.str (pieces.map Piece.char), rest) := by
  have token : skipWs (stringToken pieces ++ rest) = stringToken pieces ++ rest :=
    skipWs_cons rfl
  have head : (stringToken pieces ++ rest).head? = some '"' := rfl
  simp [parseValue, token, head, parseString_token, bind, Except.bind, pure, Except.pure]

/-- Every tree is read as its value, unless an object in it repeats a key. -/
theorem Tree.readBack (tree : Tree) : tree.ReadBack := by
  induction tree using within with
  | null => exact .of_succ fun _ _ _ _ => rfl
  | bool value => exact .of_succ fun _ _ _ _ => by cases value <;> rfl
  | int value =>
    refine .of_succ fun fuel rest ends enough => ?_
    obtain ⟨char, others, shape, starts⟩ := displayInt_head value
    have read := parseNumber_displayInt value ends
    rw [text]
    rw [shape, cons_append] at read ⊢
    rw [parseValue_number starts, read]
    rfl
  | str pieces => exact .of_succ fun fuel _ _ _ => parseValue_string pieces fuel
  | arr inner items ih =>
    refine .of_succ fun fuel rest ends enough => ?_
    have spelled : (arr inner items).text ++ rest =
        '[' :: (listed inner (itemTexts items) ++ ']' :: rest) := by simp [text]
    rw [spelled] at enough ⊢
    have read := @parseArray_text rest inner items ih fuel (by
      rw [length_cons] at enough
      omega)
    simpa [parseValue, skipWs_cons (show isWs '[' = false from rfl), value] using read
  | obj inner members ih =>
    refine .of_succ fun fuel rest ends enough => ?_
    have spelled : (obj inner members).text ++ rest =
        '{' :: (listed inner (memberTexts members) ++ '}' :: rest) := by simp [text]
    rw [spelled] at enough ⊢
    have read := @parseObject_text rest inner _ ih fuel (by
      rw [length_cons] at enough
      omega)
    simpa [parseValue, skipWs_cons (show isWs '{' = false from rfl), value] using read

theorem parse_document (document : Document) : Json.parse document.text =
    if distinctKeys document.body.value then .ok document.body.value
    else .error .duplicateKey := by
  have ends : Ends document.after.text := by
    simpa using Ends.nil.gap document.after
  have read := document.body.readBack (parseFuel document.text) document.after.text ends (by
    rw [parseFuel, Document.text]
    simp only [length_append]
    omega)
  have blank : skipWs document.after.text = [] := by
    simpa [skipWs] using @skipWs_gap [] document.after
  have start : parseValue (parseFuel document.text) document.text =
      outcome document.body.value document.after.text := by
    rw [← read]
    show parseValue (parseFuel document.text)
      (document.before.text ++ document.body.text ++ document.after.text) = _
    rw [append_assoc, parseValue_gap]
  rw [Json.parse, start, outcome]
  split
  · simp [bind, Except.bind, blank]
  · rfl

/-! ### Texts that are read are documents -/

/-- What success of the parser says about its text. -/
structure ReadsTrees (fuel : Nat) : Prop where
  value : ∀ {text rest : List Char} {value : Json}, parseValue fuel text = .ok (value, rest) →
    ∃ (gap : Gap) (tree : Tree), text = gap.text ++ tree.text ++ rest ∧ tree.value = value
  array : ∀ {text rest : List Char} {value : Json}, parseArray fuel text = .ok (value, rest) →
    ∃ tree : Tree, '[' :: text = tree.text ++ rest ∧ tree.value = value
  items : ∀ {text rest : List Char} {read : List Json} {value : Json},
    parseItems fuel read text = .ok (value, rest) → ∃ items, items ≠ [] ∧
      text = joined (itemTexts items) ++ ']' :: rest ∧ value = .arr (read ++ itemValues items)
  object : ∀ {text rest : List Char} {value : Json}, parseObject fuel text = .ok (value, rest) →
    ∃ tree : Tree, '{' :: text = tree.text ++ rest ∧ tree.value = value
  members : ∀ {text rest : List Char} {read : List (List Char × Json)} {value : Json},
    parseMembers fuel read text = .ok (value, rest) → ∃ members, members ≠ [] ∧
      text = joined (memberTexts members) ++ '}' :: rest ∧
      value = .obj (read ++ memberValues members)

theorem parseLiteral_sound {literal : List Char} {read : Json}
    (parsed : parseLiteral literal value text = .ok (read, rest)) :
    text = literal ++ rest ∧ read = value := by
  unfold parseLiteral at parsed
  split at parsed
  case h_1 after stripped =>
    cases parsed
    exact ⟨stripText_eq_some.mp stripped, rfl⟩
  case h_2 => cases parsed

theorem expect_eq_ok : expect char text = .ok rest ↔ text = char :: rest := by
  unfold expect
  constructor
  · intro expected
    split at expected
    case isTrue head =>
      cases expected
      exact (cons_head?_tail head).symm
    case isFalse => cases expected
  · rintro rfl
    rw [List.head?_cons, if_pos rfl, tail_cons]

theorem gap_mark {mark : Char} (head : (skipWs text).head? = some mark) :
    ∃ (gap : Gap) (tail : List Char), text = gap.text ++ mark :: tail ∧
      (skipWs text).tail = tail := by
  obtain ⟨gap, shape⟩ := gap_skipWs text
  rw [← cons_head?_tail head] at shape
  exact ⟨gap, _, shape, rfl⟩

theorem readsTrees_zero : ReadsTrees 0 where
  value read := by cases read
  array read := by cases read
  items read := by cases read
  object read := by cases read
  members read := by cases read

section Step

variable {fuel : Nat} (reads : ReadsTrees fuel) {value : Json}

include reads

theorem parseValue_sound (parsed : parseValue (fuel + 1) text = .ok (value, rest)) :
    ∃ (gap : Gap) (tree : Tree), text = gap.text ++ tree.text ++ rest ∧ tree.value = value := by
  obtain ⟨gap, shape⟩ := gap_skipWs text
  suffices inner : ∃ tree : Tree, skipWs text = tree.text ++ rest ∧ tree.value = value by
    obtain ⟨tree, spelled, same⟩ := inner
    exact ⟨gap, tree, by rw [append_assoc, ← spelled, ← shape], same⟩
  rw [parseValue] at parsed
  generalize skipWs text = token at parsed
  dsimp only at parsed
  split at parsed
  case isTrue head =>
    rw [← cons_head?_tail head]
    exact reads.object parsed
  split at parsed
  case isTrue head =>
    rw [← cons_head?_tail head]
    exact reads.array parsed
  split at parsed
  case isTrue head =>
    rw [← cons_head?_tail head]
    obtain ⟨⟨string, after⟩, readString, made⟩ := bind_eq_ok.mp parsed
    cases made
    obtain ⟨pieces, spelled, rfl⟩ := parseString_sound readString
    exact ⟨.str pieces, spelled, rfl⟩
  split at parsed
  case isTrue =>
    obtain ⟨spelled, rfl⟩ := parseLiteral_sound parsed
    exact ⟨.bool true, spelled, rfl⟩
  split at parsed
  case isTrue =>
    obtain ⟨spelled, rfl⟩ := parseLiteral_sound parsed
    exact ⟨.bool false, spelled, rfl⟩
  split at parsed
  case isTrue =>
    obtain ⟨spelled, rfl⟩ := parseLiteral_sound parsed
    exact ⟨.null, spelled, rfl⟩
  split at parsed
  case isTrue =>
    obtain ⟨number, rfl, spelled⟩ := parseNumber_sound parsed
    exact ⟨.int number, spelled, rfl⟩
  case isFalse => cases parsed

theorem parseArray_sound (parsed : parseArray (fuel + 1) text = .ok (value, rest)) :
    ∃ tree : Tree, '[' :: text = tree.text ++ rest ∧ tree.value = value := by
  rw [parseArray] at parsed
  split at parsed
  case isTrue head =>
    cases parsed
    obtain ⟨gap, tail, rfl, same⟩ := gap_mark head
    exact ⟨.arr gap [], by simp [text, listed, itemTexts, same], rfl⟩
  case isFalse =>
    rw [parseItems_skipWs] at parsed
    obtain ⟨items, nonempty, rfl, rfl⟩ := reads.items parsed
    have full : listed .empty (itemTexts items) = joined (itemTexts items) :=
      if_neg (by simpa [itemTexts_eq_map] using nonempty)
    exact ⟨.arr .empty items, by simp [text, full], rfl⟩

theorem parseItems_sound {read : List Json}
    (parsed : parseItems (fuel + 1) read text = .ok (value, rest)) :
    ∃ items, items ≠ [] ∧ text = joined (itemTexts items) ++ ']' :: rest ∧
      value = .arr (read ++ itemValues items) := by
  rw [parseItems] at parsed
  obtain ⟨⟨item, afterItem⟩, readItem, round⟩ := bind_eq_ok.mp parsed
  obtain ⟨before, tree, rfl, rfl⟩ := reads.value readItem
  dsimp only at round
  split at round
  case isTrue head =>
    obtain ⟨after, tail, rfl, same⟩ := gap_mark head
    rw [same] at round
    obtain ⟨items, nonempty, rfl, rfl⟩ := reads.items round
    refine ⟨⟨before, tree, after⟩ :: items, cons_ne_nil _ _, ?_, ?_⟩
    · rw [joined_items _ nonempty]
      simp
    · rw [itemValues, append_assoc]
      rfl
  case isFalse =>
    split at round
    case isTrue head =>
      cases round
      obtain ⟨after, tail, rfl, same⟩ := gap_mark head
      refine ⟨[⟨before, tree, after⟩], cons_ne_nil _ _, ?_, rfl⟩
      rw [itemTexts, itemTexts, joined_singleton, same]
      simp
    case isFalse => cases round

theorem parseObject_sound (parsed : parseObject (fuel + 1) text = .ok (value, rest)) :
    ∃ tree : Tree, '{' :: text = tree.text ++ rest ∧ tree.value = value := by
  rw [parseObject] at parsed
  split at parsed
  case isTrue head =>
    cases parsed
    obtain ⟨gap, tail, rfl, same⟩ := gap_mark head
    exact ⟨.obj gap [], by simp [text, listed, memberTexts, same], rfl⟩
  case isFalse =>
    rw [parseMembers_skipWs] at parsed
    obtain ⟨members, nonempty, rfl, rfl⟩ := reads.members parsed
    have full : listed .empty (memberTexts members) = joined (memberTexts members) := by
      obtain ⟨first, others, rfl⟩ := exists_cons_of_ne_nil nonempty
      exact if_neg (cons_ne_nil _ _)
    exact ⟨.obj .empty members, by simp [text, full], rfl⟩

theorem parseMembers_sound {read : List (List Char × Json)}
    (parsed : parseMembers (fuel + 1) read text = .ok (value, rest)) :
    ∃ members, members ≠ [] ∧ text = joined (memberTexts members) ++ '}' :: rest ∧
      value = .obj (read ++ memberValues members) := by
  rw [parseMembers] at parsed
  obtain ⟨afterQuote, quote, keyRound⟩ := bind_eq_ok.mp parsed
  obtain ⟨⟨key, afterKey⟩, readKey, valueRound⟩ := bind_eq_ok.mp keyRound
  dsimp only at valueRound
  split at valueRound
  case isTrue => cases valueRound
  case isFalse =>
    obtain ⟨afterColon, colon, colonRound⟩ := bind_eq_ok.mp valueRound
    obtain ⟨⟨item, afterItem⟩, readItem, round⟩ := bind_eq_ok.mp colonRound
    obtain ⟨pieces, spelled, rfl⟩ := parseString_sound readKey
    obtain ⟨beforeItem, tree, rfl, rfl⟩ := reads.value readItem
    obtain ⟨beforeKey, shape⟩ := gap_skipWs text
    obtain ⟨afterToken, shapeKey⟩ := gap_skipWs afterKey
    rw [expect_eq_ok.mp quote, spelled] at shape
    rw [expect_eq_ok.mp colon] at shapeKey
    dsimp only at round
    split at round
    case isTrue head =>
      obtain ⟨after, tail, rfl, same⟩ := gap_mark head
      rw [same] at round
      obtain ⟨members, nonempty, rfl, rfl⟩ := reads.members round
      refine ⟨(⟨beforeKey, pieces, afterToken⟩, ⟨beforeItem, tree, after⟩) :: members,
        cons_ne_nil _ _, ?_, ?_⟩
      · rw [joined_members _ _ nonempty, shape, shapeKey]
        simp
      · rw [memberValues, append_assoc]
        rfl
    case isFalse =>
      split at round
      case isTrue head =>
        cases round
        obtain ⟨after, tail, rfl, same⟩ := gap_mark head
        refine ⟨[(⟨beforeKey, pieces, afterToken⟩, ⟨beforeItem, tree, after⟩)],
          cons_ne_nil _ _, ?_, rfl⟩
        rw [memberTexts, memberTexts, joined_singleton, same, shape, shapeKey]
        simp
      case isFalse => cases round

end Step

theorem readsTrees (fuel : Nat) : ReadsTrees fuel := by
  induction fuel with
  | zero => exact readsTrees_zero
  | succ fuel ih =>
    exact ⟨parseValue_sound ih, parseArray_sound ih,
      parseItems_sound ih, parseObject_sound ih,
      parseMembers_sound ih⟩

theorem parse_sound (parsed : Json.parse text = .ok value) :
    ∃ document : Document, document.text = text ∧ document.body.value = value ∧
      distinctKeys value = true := by
  have whole := parsed
  rw [Json.parse] at parsed
  obtain ⟨⟨read, rest⟩, readValue, finish⟩ := bind_eq_ok.mp parsed
  obtain ⟨before, tree, spelled, rfl⟩ := (readsTrees _).value readValue
  obtain ⟨after, shape⟩ := gap_skipWs rest
  dsimp only at finish
  split at finish
  case isTrue => cases finish
  case isFalse ended =>
    cases finish
    rw [not_not.mp ended, append_nil] at shape
    have document : Document.text ⟨before, tree, after⟩ = text := by
      rw [Document.text, spelled, shape]
    refine ⟨⟨before, tree, after⟩, document, rfl, ?_⟩
    by_contra repeated
    rw [← document, parse_document, if_neg repeated] at whole
    cases whole

/-! ### Fuel -/

/-- The same outcome twice, and not that the fuel is spent. -/
def Agree {α : Type} (first second : Except JsonError α) : Prop :=
  first = second ∧ first ≠ .error .outOfFuel

section Agree

variable {α β : Type} {first second : Except JsonError α} {condition : Prop} [Decidable condition]

theorem Agree.ite {others otherSecond : Except JsonError α} (yes : condition → Agree first second)
    (no : ¬condition → Agree others otherSecond) :
    Agree (if condition then first else others) (if condition then second else otherSecond) := by
  split
  · exact yes ‹_›
  · exact no ‹_›

theorem Agree.bind {later other : α → Except JsonError β} (agree : Agree first second)
    (same : ∀ value, first = .ok value → Agree (later value) (other value)) :
    Agree (first >>= later) (second >>= other) := by
  obtain ⟨rfl, ended⟩ := agree
  cases first with
  | error => exact ⟨rfl, fun spent => ended (congrArg Except.error (Except.error.inj spent))⟩
  | ok value => exact same value rfl

theorem Agree.ok (value : α) : Agree (.ok value) (.ok value) := ⟨rfl, nofun⟩

theorem Agree.refused {error : JsonError} (other : error ≠ .outOfFuel) :
    Agree (.error error : Except JsonError α) (.error error) :=
  ⟨rfl, fun spent => other (Except.error.inj spent)⟩

end Agree

theorem agree_parseLiteral {literal : List Char} :
    Agree (parseLiteral literal value text) (parseLiteral literal value text) := by
  unfold parseLiteral
  split
  · exact .ok _
  · exact .refused nofun

theorem agree_parseNumber : Agree (parseNumber text) (parseNumber text) := by
  have digits : ∀ negative text, Agree (parseDigits negative text) (parseDigits negative text) := by
    intro negative text
    unfold parseDigits
    refine .ite (fun _ => .refused nofun) fun _ => .ite (fun _ => .refused nofun) fun _ =>
      .ite (fun _ => .refused nofun) fun _ => .ite (fun _ => .refused nofun) fun _ => ?_
    split
    · exact .ok _
    · exact .refused nofun
  exact .ite (fun _ => digits _ _) fun _ => digits _ _

theorem agree_charFor {code : Nat} : Agree (charFor code text) (charFor code text) := by
  unfold charFor
  split
  · exact .ok _
  · exact .refused nofun

theorem agree_parseHexDigits (count value : Nat) :
    Agree (parseHexDigits count value text) (parseHexDigits count value text) := by
  induction count generalizing value text with
  | zero => exact .ok _
  | succ count ih =>
    cases text with
    | nil => exact .refused nofun
    | cons char rest =>
      unfold parseHexDigits
      split
      · exact ih _
      · exact .refused nofun

theorem agree_parseEscape : Agree (parseEscape text) (parseEscape text) := by
  have unicode : ∀ text, Agree (parseUnicodeEscape text) (parseUnicodeEscape text) := by
    intro text
    refine .bind (agree_parseHexDigits 4 0) fun _ _ => .ite (fun _ => ?_) fun _ =>
      .ite (fun _ => .refused nofun) fun _ => agree_charFor
    split
    · exact .bind (agree_parseHexDigits 4 0) fun _ _ =>
        .ite (fun _ => agree_charFor) fun _ => .refused nofun
    · exact .refused nofun
  cases text with
  | nil => exact .refused nofun
  | cons letter rest =>
    simp only [parseEscape]
    split
    · exact .ok _
    · exact .ite (fun _ => unicode rest) fun _ => .refused nofun

/-- Every round of the loop takes a character. -/
theorem agree_parseStringLoop {fuel : Nat} {out : List Char} (enough : text.length < fuel) :
    Agree (parseStringLoop fuel out text) (parseStringLoop fuel out text) := by
  induction fuel generalizing out text with
  | zero => exact absurd enough (Nat.not_lt_zero _)
  | succ fuel ih =>
    cases text with
    | nil => exact .refused nofun
    | cons char rest =>
      rw [length_cons] at enough
      refine .ite (fun _ => .ok _) fun _ => .ite (fun _ => .bind agree_parseEscape ?_) fun _ =>
        .ite (fun _ => .refused nofun) fun _ => ih (by omega)
      intro (escaped, after) readEscape
      obtain ⟨spelled, shape, -⟩ := parseEscape_eq_ok.mp readEscape
      rw [shape, length_append] at enough
      exact ih (by omega)

theorem agree_parseString : Agree (parseString text) (parseString text) :=
  agree_parseStringLoop (Nat.lt_succ_self _)

theorem agree_expect : Agree (expect char text) (expect char text) :=
  .ite (fun _ => .ok _) fun _ => .refused nofun

theorem length_tail_of_head (head : text.head? = some char) :
    text.tail.length + 1 = text.length := by
  cases text with
  | nil => cases head
  | cons => rfl

theorem parseValue_shorter (parsed : parseValue fuel text = .ok (value, rest)) :
    rest.length < text.length := by
  obtain ⟨gap, tree, rfl, _⟩ := (readsTrees fuel).value parsed
  obtain ⟨char, others, shape, _⟩ := tree.text_head
  simp only [shape, length_append, length_cons]
  omega

theorem parseString_shorter {string : List Char} (parsed : parseString text = .ok (string, rest)) :
    rest.length ≤ text.length := by
  obtain ⟨pieces, shape, _⟩ := parseString_sound parsed
  have length := congrArg List.length shape
  simp only [stringToken, length_append, length_cons] at length
  omega

/-- More fuel than a text can use changes nothing, and is not spent. -/
structure Settled (fuel other : Nat) : Prop where
  value : ∀ {text : List Char}, 3 * text.length + 1 ≤ fuel → 3 * text.length + 1 ≤ other →
    Agree (parseValue fuel text) (parseValue other text)
  array : ∀ {text : List Char}, 3 * text.length + 3 ≤ fuel → 3 * text.length + 3 ≤ other →
    Agree (parseArray fuel text) (parseArray other text)
  items : ∀ {read : List Json} {text : List Char}, 3 * text.length + 2 ≤ fuel →
    3 * text.length + 2 ≤ other → Agree (parseItems fuel read text) (parseItems other read text)
  object : ∀ {text : List Char}, 3 * text.length + 3 ≤ fuel → 3 * text.length + 3 ≤ other →
    Agree (parseObject fuel text) (parseObject other text)
  members : ∀ {read : List (List Char × Json)} {text : List Char}, 3 * text.length + 2 ≤ fuel →
    3 * text.length + 2 ≤ other → Agree (parseMembers fuel read text) (parseMembers other read text)

theorem settled_succ {other : Nat} (settled : Settled fuel other) :
    Settled (fuel + 1) (other + 1) where
  value {text} enough enoughOther := by
    have shorter := skipWs_length text
    rw [parseValue, parseValue]
    refine .ite (fun head => ?_) fun _ => .ite (fun head => ?_) fun _ =>
      .ite (fun _ => .bind agree_parseString fun _ _ => .ok _) fun _ =>
      .ite (fun _ => agree_parseLiteral) fun _ => .ite (fun _ => agree_parseLiteral) fun _ =>
      .ite (fun _ => agree_parseLiteral) fun _ =>
      .ite (fun _ => agree_parseNumber) fun _ => .refused nofun
    · have tail := length_tail_of_head head
      exact settled.object (by omega) (by omega)
    · have tail := length_tail_of_head head
      exact settled.array (by omega) (by omega)
  array {text} enough enoughOther := by
    have shorter := skipWs_length text
    rw [parseArray, parseArray]
    exact .ite (fun _ => .ok _) fun _ => settled.items (by omega) (by omega)
  items {read text} enough enoughOther := by
    rw [parseItems, parseItems]
    refine .bind (settled.value (by omega) (by omega)) fun (item, rest) readItem => ?_
    have shorter := parseValue_shorter readItem
    have skipped := skipWs_length rest
    refine .ite (fun head => ?_) fun _ => .ite (fun _ => .ok _) fun _ => .refused nofun
    have tail := length_tail_of_head head
    exact settled.items (by omega) (by omega)
  object {text} enough enoughOther := by
    have shorter := skipWs_length text
    rw [parseObject, parseObject]
    exact .ite (fun _ => .ok _) fun _ => settled.members (by omega) (by omega)
  members {read text} enough enoughOther := by
    have shorter := skipWs_length text
    rw [parseMembers, parseMembers]
    refine .bind agree_expect fun afterQuote quote =>
      .bind agree_parseString fun (key, afterKey) readKey => ?_
    have quoted := congrArg List.length (expect_eq_ok.mp quote)
    have keyed := parseString_shorter readKey
    have skippedKey := skipWs_length afterKey
    refine .ite (fun _ => .refused nofun) fun _ => .bind agree_expect fun afterColon colon => ?_
    have coloned := congrArg List.length (expect_eq_ok.mp colon)
    rw [length_cons] at quoted coloned
    refine .bind (settled.value (by omega) (by omega)) fun (item, rest) readItem => ?_
    have shorterItem := parseValue_shorter readItem
    have skipped := skipWs_length rest
    refine .ite (fun head => ?_) fun _ => .ite (fun _ => .ok _) fun _ => .refused nofun
    have tail := length_tail_of_head head
    exact settled.members (by omega) (by omega)

theorem settled : ∀ fuel other, Settled fuel other
  | 0, _ | _, 0 => by constructor <;> intros <;> omega
  | fuel + 1, other + 1 => settled_succ (settled fuel other)

/-- The recursion of the parser ends on every text, accepted or not, before the fuel is spent. -/
theorem parseValue_fuel (enough : parseFuel text ≤ fuel) :
    parseValue fuel text = parseValue (parseFuel text) text ∧
      parseValue fuel text ≠ .error .outOfFuel ∧ Json.parse text ≠ .error .outOfFuel := by
  obtain ⟨same, ended⟩ := (settled fuel _).value enough (Nat.le_refl (parseFuel text))
  have whole : Agree (Json.parse text) (Json.parse text) :=
    .bind ((settled _ _).value (Nat.le_refl _) (Nat.le_refl _)) fun _ _ =>
      .ite (fun _ => .refused nofun) fun _ => .ok _
  exact ⟨same, ended, whole.2⟩

theorem parseValue_fuel_nested : parseValue 100 "[[1], -2]".toList =
    .ok (.arr [.arr [.int 1], .int (-2)], []) :=
  (parseValue_fuel (by decide)).1.trans rfl

end Rvm.Anchor
