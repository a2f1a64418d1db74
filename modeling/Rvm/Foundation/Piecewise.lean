import Mathlib.Data.List.Basic

/-!
Owns consumers of a stream that is given in pieces: a consumer that takes whole
pieces simulates one that takes single elements, and then the cutting of the
stream does not matter.
-/

namespace Foundation

variable {α β γ : Type}

/-- The outcomes of two partial runs correspond. -/
def Corresponds (Related : α → β → Prop) : Option α → Option β → Prop
  | none, none => True
  | some left, some right => Related left right
  | _, _ => False

namespace Corresponds

variable {Related : α → β → Prop} {left : Option α} {right : Option β}

theorem bind {γ δ : Type} {After : γ → δ → Prop} {next : α → Option γ} {step : β → Option δ}
    (corresponds : Corresponds Related left right)
    (continued : ∀ a b, Related a b → Corresponds After (next a) (step b)) :
    Corresponds After (left.bind next) (right.bind step) := by
  cases left <;> cases right <;> first | exact trivial | exact corresponds.elim | skip
  exact continued _ _ corresponds

/-- Two outcomes that correspond to the same one show the same, if that shows it. -/
theorem agree {α' δ : Type} {Other : α' → β → Prop} {seen : α → δ} {sight : α' → δ}
    {shown : β → δ} {other : Option α'} (first : Corresponds Related left right)
    (second : Corresponds Other other right) (sees : ∀ a b, Related a b → seen a = shown b)
    (sights : ∀ a b, Other a b → sight a = shown b) : left.map seen = other.map sight := by
  cases right with
  | none =>
    cases left with
    | some _ => exact first.elim
    | none =>
      cases other with
      | some _ => exact second.elim
      | none => rfl
  | some target =>
    cases left with
    | none => exact first.elim
    | some here =>
      cases other with
      | none => exact second.elim
      | some there => exact congrArg some ((sees _ _ first).trans (sights _ _ second).symm)

end Corresponds

def Simulates (feed : α → List γ → Option α) (absorb : β → γ → Option β)
    (Related : α → β → Prop) (Fits : List γ → Prop) : Prop :=
  ∀ piece here there, Fits piece → Related here there →
    Corresponds Related (feed here piece) (piece.foldlM absorb there)

section Pieces

variable {feed : α → List γ → Option α} {absorb : β → γ → Option β} {Related : α → β → Prop}
  {Fits : List γ → Prop}

theorem Simulates.pieces (simulates : Simulates feed absorb Related Fits)
    {pieces : List (List γ)} (fits : ∀ piece ∈ pieces, Fits piece) {here : α} {there : β}
    (related : Related here there) :
    Corresponds Related (pieces.foldlM feed here) (pieces.flatten.foldlM absorb there) := by
  induction pieces generalizing here there with
  | nil => exact related
  | cons piece rest ih =>
    rw [List.foldlM_cons, List.flatten_cons, List.foldlM_append]
    apply (simulates piece here there (fits piece List.mem_cons_self) related).bind
    intro next step after
    exact ih (fun other member => fits other (List.mem_cons_of_mem _ member)) after

theorem Simulates.cut_independent {δ : Type} (simulates : Simulates feed absorb Related Fits)
    {seen : α → δ} {shown : β → δ} (sees : ∀ a b, Related a b → seen a = shown b)
    {pieces others : List (List γ)} (fits : ∀ piece ∈ pieces, Fits piece)
    (otherFits : ∀ piece ∈ others, Fits piece) (same : pieces.flatten = others.flatten)
    {here : α} {there : β} (related : Related here there) :
    (pieces.foldlM feed here).map seen = (others.foldlM feed here).map seen := by
  have first := simulates.pieces fits related
  have second := simulates.pieces otherFits related
  rw [← same] at second
  exact first.agree second sees sees

end Pieces

end Foundation
