/-!
Owns the inversion of checked calls: a result that was returned tells that every
check before it passed, a refusal which one failed.
-/

namespace Foundation

variable {ε α β : Type} {condition : Prop} [Decidable condition] {refusal error : ε}
  {rest : Except ε α} {value : α}

theorem ite_error_eq_ok : (if condition then .error refusal else rest) = .ok value ↔
    ¬condition ∧ rest = .ok value := by
  split
  · next failed => exact iff_of_false (fun returned => by cases returned) fun both => both.1 failed
  · next passed => exact (and_iff_right passed).symm

theorem bind_eq_ok {first : Except ε α} {later : α → Except ε β} {result : β} :
    (first >>= later) = .ok result ↔ ∃ value, first = .ok value ∧ later value = .ok result := by
  cases first with
  | error e =>
    exact iff_of_false (fun made => by cases made) fun ⟨_, made, _⟩ => by cases made
  | ok value =>
    constructor
    · exact fun made => ⟨value, rfl, made⟩
    · rintro ⟨_, same, made⟩
      cases same
      exact made

end Foundation
