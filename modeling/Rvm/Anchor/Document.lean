import Rvm.Anchor.Json

/-!
Owns the grammar of JSON documents in the contract's number domain: documents as
trees of their tokens with the whitespace between them, the text and the value of
a document, and documents that are rearrangements of each other.
-/

namespace Rvm.Anchor

open Foundation

/-- Whitespace between two tokens. -/
structure Gap where
  text : List Char
  blank : ∀ char ∈ text, isWs char = true

def Gap.empty : Gap := ⟨[], by simp⟩

/-- A token or a group of tokens with the whitespace around it. -/
structure Spaced (α : Type) where
  before : Gap
  body : α
  after : Gap

def hexUnit? (digits : List Char) : Option Nat :=
  if digits.length = 4 then
    (digits.mapM hexDigit?).map (List.foldl (fun value digit => value * 16 + digit) 0)
  else none

/-- The ways to spell a character in a string token. -/
inductive Spells : List Char → Char → Prop
  | plain {char : Char} (quote : char ≠ '"') (backslash : char ≠ '\\')
      (control : ¬ char.toNat < 0x20) : Spells [char] char
  | short {letter char : Char} (short : shortEscape? letter = some char) :
      Spells ['\\', letter] char
  | unit {digits : List Char} {unit : Nat} {char : Char} (reads : hexUnit? digits = some unit)
      (encodes : utf16Units char = [unit]) : Spells ('\\' :: 'u' :: digits) char
  | pair {highDigits lowDigits : List Char} {high low : Nat} {char : Char}
      (readsHigh : hexUnit? highDigits = some high) (readsLow : hexUnit? lowDigits = some low)
      (encodes : utf16Units char = [high, low]) :
      Spells ('\\' :: 'u' :: highDigits ++ '\\' :: 'u' :: lowDigits) char

/-- A character of a string token as it is spelled. -/
structure Piece where
  text : List Char
  char : Char
  spells : Spells text char

def stringToken (pieces : List Piece) : List Char := '"' :: pieces.flatMap Piece.text ++ ['"']

inductive Tree
  | null
  | bool (value : Bool)
  | int (value : Int64)
  | str (pieces : List Piece)
  /-- `inner` is the whitespace of an empty array. -/
  | arr (inner : Gap) (items : List (Spaced Tree))
  /-- `inner` is the whitespace of an empty object. -/
  | obj (inner : Gap) (members : List (Spaced (List Piece) × Spaced Tree))

/-- The whitespace, or the texts with a `,` between them. -/
def listed (inner : Gap) (texts : List (List Char)) : List Char :=
  if texts = [] then inner.text else joined texts

mutual

def Tree.text : Tree → List Char
  | .null => "null".toList
  | .bool true => "true".toList
  | .bool false => "false".toList
  | .int value => displayInt value
  | .str pieces => stringToken pieces
  | .arr inner items => '[' :: listed inner (itemTexts items) ++ [']']
  | .obj inner members => '{' :: listed inner (memberTexts members) ++ ['}']

def itemTexts : List (Spaced Tree) → List (List Char)
  | [] => []
  | ⟨before, tree, after⟩ :: rest => (before.text ++ tree.text ++ after.text) :: itemTexts rest

def memberTexts : List (Spaced (List Piece) × Spaced Tree) → List (List Char)
  | [] => []
  | (key, ⟨before, tree, after⟩) :: rest =>
    (key.before.text ++ stringToken key.body ++ key.after.text ++
      ':' :: (before.text ++ tree.text ++ after.text)) :: memberTexts rest

end

mutual

def Tree.value : Tree → Json
  | .null => .null
  | .bool value => .bool value
  | .int value => .int value
  | .str pieces => .str (pieces.map Piece.char)
  | .arr _ items => .arr (itemValues items)
  | .obj _ members => .obj (memberValues members)

def itemValues : List (Spaced Tree) → List Json
  | [] => []
  | ⟨_, tree, _⟩ :: rest => tree.value :: itemValues rest

def memberValues : List (Spaced (List Piece) × Spaced Tree) → List (List Char × Json)
  | [] => []
  | (key, ⟨_, tree, _⟩) :: rest => (key.body.map Piece.char, tree.value) :: memberValues rest

end

section Lists

variable {items : List (Spaced Tree)} {members : List (Spaced (List Piece) × Spaced Tree)}

theorem itemTexts_eq_map : itemTexts items =
    items.map fun item => item.before.text ++ item.body.text ++ item.after.text := by
  induction items with
  | nil => rfl
  | cons item rest ih => rw [itemTexts, ih, List.map_cons]

theorem itemValues_eq_map : itemValues items = items.map fun item => item.body.value := by
  induction items with
  | nil => rfl
  | cons item rest ih => rw [itemValues, ih, List.map_cons]

theorem memberValues_eq_map : memberValues members =
    members.map fun member => (member.1.body.map Piece.char, member.2.body.value) := by
  induction members with
  | nil => rfl
  | cons member rest ih => rw [memberValues, ih, List.map_cons]

theorem Tree.within {motive : Tree → Prop} (null : motive .null)
    (bool : ∀ value, motive (.bool value)) (int : ∀ value, motive (.int value))
    (str : ∀ pieces, motive (.str pieces))
    (arr : ∀ inner items, (∀ item ∈ items, motive item.body) → motive (.arr inner items))
    (obj : ∀ inner members, (∀ member ∈ members, motive member.2.body) →
      motive (.obj inner members)) (tree : Tree) : motive tree :=
  @Tree.rec motive (fun items => ∀ item ∈ items, motive item.body)
    (fun members => ∀ member ∈ members, motive member.2.body) (fun item => motive item.body)
    (fun member => motive member.2.body) null bool int str arr obj (List.forall_mem_nil _)
    (fun _ _ head tail => List.forall_mem_cons.mpr ⟨head, tail⟩) (List.forall_mem_nil _)
    (fun _ _ head tail => List.forall_mem_cons.mpr ⟨head, tail⟩) (fun _ _ _ body => body)
    (fun _ _ body => body) tree

end Lists

/-- The tokens are the same up to the order of object members; the whitespace may differ. -/
inductive Tree.Rearranged : Tree → Tree → Prop
  | null : Rearranged .null .null
  | bool (value : Bool) : Rearranged (.bool value) (.bool value)
  | int (value : Int64) : Rearranged (.int value) (.int value)
  | str (pieces : List Piece) : Rearranged (.str pieces) (.str pieces)
  | arr {inner inner' : Gap} {items items' : List (Spaced Tree)}
      (same : List.Forall₂ (fun item item' => Rearranged item.body item'.body) items items') :
      Rearranged (.arr inner items) (.arr inner' items')
  | obj {inner inner' : Gap} {members middle members' : List (Spaced (List Piece) × Spaced Tree)}
      (keys : members.map (fun member => member.1.body) = middle.map fun member => member.1.body)
      (same : List.Forall₂ (fun member member' => Rearranged member.2.body member'.2.body)
        members middle)
      (order : middle.Perm members') : Rearranged (.obj inner members) (.obj inner' members')

/-- A whole text: a tree with the whitespace around it. -/
abbrev Document := Spaced Tree

def Document.text (document : Document) : List Char :=
  document.before.text ++ document.body.text ++ document.after.text

def Document.Rearranged (document other : Document) : Prop :=
  Tree.Rearranged document.body other.body

end Rvm.Anchor
