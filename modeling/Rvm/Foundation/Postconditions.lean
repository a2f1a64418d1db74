import Rvm.Foundation.Call

/-!
Owns further postconditions of calls: of the outcome where there is one, of two calls made
side by side, bounds on how far a call moves its state, and calls without a state.
-/

namespace Foundation.Call

variable {ε σ τ δ α β : Type} {state : σ} {Returned : α → σ → Prop} {Refused : ε → σ → Prop}

/-- Where the call returns, `Returned` holds of the value and the new state, and
where it is refused, `Refused` holds of the reason and the new state. -/
def Permits (call : Call ε σ α) (state : σ) (Returned : α → σ → Prop)
    (Refused : ε → σ → Prop) : Prop :=
  ∀ outcome next, call.runFrom state = some (outcome, next) →
    match outcome with
    | .ok value => Returned value next
    | .error reason => Refused reason next

/-- Whatever the outcome is, `After` holds of the new state. -/
abbrev Leaves (call : Call ε σ α) (state : σ) (After : σ → Prop) : Prop :=
  call.Permits state (fun _ => After) fun _ => After

variable {call : Call ε σ α} {reason : ε} {change : σ → σ} {condition : Prop}

theorem Ensures.permits (ensures : call.Ensures state Returned Refused) :
    call.Permits state Returned Refused := by
  intro outcome next ran
  rw [Ensures, ran] at ensures
  cases outcome with
  | ok value => exact ensures
  | error reason => exact ensures

@[simp]
theorem permits_pure {value : α} :
    Permits (pure value : Call ε σ α) state Returned Refused ↔ Returned value state := by
  simp [Permits]

@[simp]
theorem permits_throw :
    Permits (throw reason : Call ε σ α) state Returned Refused ↔ Refused reason state := by
  simp [Permits]

@[simp]
theorem permits_bind {next : α → Call ε σ β} {After : β → σ → Prop} :
    Permits (call >>= next) state After Refused ↔
      call.Permits state (fun value middle => (next value).Permits middle After Refused)
        Refused := by
  unfold Permits
  rw [runFrom_bind]
  rcases call.runFrom state with _ | ⟨_ | _, _⟩ <;> simp

@[simp]
theorem permits_map {change : α → β} {After : β → σ → Prop} :
    Permits (change <$> call) state After Refused ↔
      call.Permits state (fun value middle => After (change value) middle) Refused := by
  rw [← bind_pure_comp, permits_bind]
  simp

@[simp]
theorem permits_get {Returned : σ → σ → Prop} :
    Permits (get : Call ε σ σ) state Returned Refused ↔ Returned state state := by
  simp [Permits]

@[simp]
theorem permits_set {next : σ} {Returned : PUnit → σ → Prop} :
    Permits (set next : Call ε σ PUnit) state Returned Refused ↔ Returned ⟨⟩ next := by
  simp [Permits]

@[simp]
theorem permits_modify {Returned : PUnit → σ → Prop} :
    Permits (modify change : Call ε σ PUnit) state Returned Refused ↔
      Returned ⟨⟩ (change state) := by
  simp [Permits]

@[simp]
theorem permits_orPanic {value : Option α} :
    Permits (orPanic value : Call ε σ α) state Returned Refused ↔
      ∀ present, value = some present → Returned present state := by
  cases value <;> simp [Permits]

@[simp]
theorem permits_orThrow {value : Option α} :
    Permits (orThrow value reason : Call ε σ α) state Returned Refused ↔
      (∀ present, value = some present → Returned present state) ∧
        (value = none → Refused reason state) := by
  cases value <;> simp [orThrow]

@[simp]
theorem permits_refuse :
    Permits (refuse reason change : Call ε σ α) state Returned Refused ↔
      Refused reason (change state) := by
  simp [refuse]

@[simp]
theorem permits_orRefuse {value : Option α} :
    Permits (orRefuse value reason change : Call ε σ α) state Returned Refused ↔
      (∀ present, value = some present → Returned present state) ∧
        (value = none → Refused reason (change state)) := by
  cases value <;> simp [orRefuse]

@[simp]
theorem permits_orRefusal {result : Except ε α} :
    Permits (orRefusal result : Call ε σ α) state Returned Refused ↔
      (∀ value, result = .ok value → Returned value state) ∧
        (∀ reason, result = .error reason → Refused reason state) := by
  cases result <;> simp [orRefusal]

@[simp]
theorem permits_translate {reasonOf : δ → ε} {call : Call δ σ α} :
    Permits (translate reasonOf call) state Returned Refused ↔
      call.Permits state Returned fun reason next => Refused (reasonOf reason) next := by
  unfold Permits
  rw [runFrom_translate]
  rcases call.runFrom state with _ | ⟨_ | _, _⟩ <;> simp [Except.mapError]

@[simp]
theorem permits_attempt {After : Except ε α → σ → Prop} :
    Permits (attempt call) state After Refused ↔
      call.Permits state (fun value next => After (.ok value) next)
        (fun reason next => After (.error reason) next) := by
  unfold Permits
  rw [runFrom_attempt]
  rcases call.runFrom state with _ | ⟨_ | _, _⟩ <;> simp

@[simp]
theorem permits_ite [Decidable condition] {yes no : Call ε σ α} :
    Permits (if condition then yes else no) state Returned Refused ↔
      (condition → yes.Permits state Returned Refused) ∧
        (¬condition → no.Permits state Returned Refused) := by
  split <;> simp_all

@[simp]
theorem permits_throwIf [Decidable condition] {Returned : PUnit → σ → Prop} :
    Permits (throwIf condition reason : Call ε σ PUnit) state Returned Refused ↔
      (condition → Refused reason state) ∧ (¬condition → Returned ⟨⟩ state) := by
  simp [throwIf]

@[simp]
theorem permits_refuseIf [Decidable condition] {Returned : PUnit → σ → Prop} :
    Permits (refuseIf condition reason change : Call ε σ PUnit) state Returned Refused ↔
      (condition → Refused reason (change state)) ∧ (¬condition → Returned ⟨⟩ state) := by
  simp [refuseIf]

@[simp]
theorem permits_onPart {part : σ → τ} {put : σ → τ → σ} {call : Call ε τ α} :
    Permits (onPart part put call) state Returned Refused ↔
      call.Permits (part state) (fun value next => Returned value (put state next))
        fun reason next => Refused reason (put state next) := by
  simp only [onPart, permits_bind, permits_get, permits_set, permits_orPanic, permits_orRefusal]
  unfold Permits
  rcases call.runFrom (part state) with _ | ⟨_ | _, _⟩ <;> simp

/-- What every outcome meets. -/
theorem permits_always (returned : ∀ value next, Returned value next)
    (refused : ∀ reason next, Refused reason next) : call.Permits state Returned Refused := by
  intro outcome next _
  cases outcome with
  | ok value => exact returned value next
  | error reason => exact refused reason next

/-- The consequence rule. -/
theorem Permits.mono {Weaker : α → σ → Prop} {Other : ε → σ → Prop}
    (permits : call.Permits state Returned Refused)
    (returned : ∀ value next, Returned value next → Weaker value next)
    (refused : ∀ reason next, Refused reason next → Other reason next) :
    call.Permits state Weaker Other := by
  intro outcome next ran
  have holds := permits outcome next ran
  cases outcome with
  | ok value => exact returned value next holds
  | error reason => exact refused reason next holds

theorem Permits.weaken {Weaker : α → σ → Prop} (permits : call.Permits state Returned Refused)
    (returned : ∀ value next, Returned value next → Weaker value next) :
    call.Permits state Weaker Refused :=
  permits.mono returned fun _ _ refused => refused

/-- The rule of a loop that updates a value of its own. -/
theorem permits_foldlM {Invariant : β → σ → Prop} {body : β → α → Call ε σ β} {items : List α}
    {start : β} (initial : Invariant start state)
    (round : ∀ value item here, Invariant value here →
      (body value item).Permits here Invariant Refused) :
    Permits (items.foldlM body start) state Invariant Refused := by
  induction items generalizing start state with
  | nil => exact permits_pure.mpr initial
  | cons item rest ih =>
    rw [List.foldlM_cons, permits_bind]
    exact (round start item state initial).mono (fun _ _ kept => ih kept)
      fun _ _ refused => refused

/-- The rule of a loop that collects values. -/
theorem permits_forM {Keeps : σ → Prop} {body : α → Call ε σ PUnit} {items : List α}
    (initial : Keeps state) (round : ∀ item here, Keeps here →
      (body item).Permits here (fun _ next => Keeps next) Refused) :
    (items.forM body).Permits state (fun _ next => Keeps next) Refused := by
  induction items generalizing state with
  | nil => exact permits_pure.mpr initial
  | cons item rest ih =>
    change (body item >>= fun _ => rest.forM body).Permits state _ _
    rw [permits_bind]
    exact (round item state initial).weaken fun _ _ kept => ih kept

theorem permits_mapM {Keeps : σ → Prop} {body : α → Call ε σ β} {items : List α}
    (initial : Keeps state)
    (round : ∀ item here, Keeps here →
      (body item).Permits here (fun _ next => Keeps next) Refused) :
    Permits (items.mapM body) state (fun _ next => Keeps next) Refused := by
  induction items generalizing state with
  | nil => exact permits_pure.mpr initial
  | cons item rest ih =>
    rw [List.mapM_cons, permits_bind]
    apply (round item state initial).weaken
    intro value next kept
    rw [permits_bind]
    exact (ih kept).mono (fun _ _ after => permits_pure.mpr after)
      fun _ _ refused => refused

theorem Ensures.also {Also : α → σ → Prop} {Other : ε → σ → Prop}
    (ensures : call.Ensures state Returned Refused) (permits : call.Permits state Also Other) :
    call.Ensures state (fun value next => Returned value next ∧ Also value next)
      fun reason next => Refused reason next ∧ Other reason next := by
  apply ensures.traced.mono
  · exact fun value next returned => ⟨returned.1, permits (.ok value) next returned.2⟩
  · exact fun reason next refused => ⟨refused.1, permits (.error reason) next refused.2⟩

end Foundation.Call

namespace Foundation.Call

variable {ε δ σ τ α β γ ω : Type} {here : σ} {there : τ} {condition : Prop}
  [Decidable condition] {Returned : α → σ → β → τ → Prop} {Refused : ε → σ → δ → τ → Prop}

/-- The outcomes of two calls are related. -/
def Coupled (left : Call ε σ α) (here : σ) (right : Call δ τ β) (there : τ)
    (Returned : α → σ → β → τ → Prop) (Refused : ε → σ → δ → τ → Prop) : Prop :=
  match left.runFrom here, right.runFrom there with
  | none, none => True
  | some (.ok value, next), some (.ok other, after) => Returned value next other after
  | some (.error reason, next), some (.error other, after) => Refused reason next other after
  | _, _ => False

variable {left : Call ε σ α} {Related : σ → τ → Prop}

/-- The rule of sequence. -/
theorem Coupled.bind {right : Call δ τ β} {nextLeft : α → Call ε σ γ} {nextRight : β → Call δ τ ω}
    {After : γ → σ → ω → τ → Prop} (first : Coupled left here right there Returned Refused)
    (second : ∀ value middle other after, Returned value middle other after →
      Coupled (nextLeft value) middle (nextRight other) after After Refused) :
    Coupled (left >>= nextLeft) here (right >>= nextRight) there After Refused := by
  unfold Coupled at first ⊢
  rw [runFrom_bind, runFrom_bind]
  generalize left.runFrom here = leftOutcome at first ⊢
  generalize right.runFrom there = rightOutcome at first ⊢
  rcases leftOutcome with _ | ⟨reason | value, middle⟩
  · rcases rightOutcome with _ | ⟨_ | _, _⟩
    · trivial
    · exact first.elim
    · exact first.elim
  · rcases rightOutcome with _ | ⟨_ | _, _⟩
    · exact first.elim
    · exact first
    · exact first.elim
  · rcases rightOutcome with _ | ⟨_ | _, _⟩
    · exact first.elim
    · exact first.elim
    · exact second _ _ _ _ first

@[simp]
theorem coupled_get_bind {nextLeft : σ → Call ε σ α} {nextRight : τ → Call δ τ β} :
    Coupled (get >>= nextLeft) here (get >>= nextRight) there Returned Refused ↔
      Coupled (nextLeft here) here (nextRight there) there Returned Refused := by
  unfold Coupled
  rw [runFrom_bind, runFrom_bind]
  rfl

@[simp]
theorem coupled_modify_bind {change : σ → σ} {other : τ → τ} {nextLeft : PUnit → Call ε σ α}
    {nextRight : PUnit → Call δ τ β} :
    Coupled (modify change >>= nextLeft) here (modify other >>= nextRight) there
      Returned Refused ↔
      Coupled (nextLeft ⟨⟩) (change here) (nextRight ⟨⟩) (other there) Returned Refused := by
  unfold Coupled
  rw [runFrom_bind, runFrom_bind]
  rfl

theorem coupled_ite {other : Prop} [Decidable other] {yes no : Call ε σ α}
    {otherYes otherNo : Call δ τ β} (same : condition ↔ other)
    (ifYes : condition → Coupled yes here otherYes there Returned Refused)
    (ifNo : ¬condition → Coupled no here otherNo there Returned Refused) :
    Coupled (if condition then yes else no) here (if other then otherYes else otherNo) there
      Returned Refused := by
  by_cases holds : condition
  · rw [if_pos holds, if_pos (same.mp holds)]
    exact ifYes holds
  · rw [if_neg holds, if_neg (holds ∘ same.mpr)]
    exact ifNo holds

/-- The calls have one outcome and leave related states. -/
abbrev Simulated (Related : σ → τ → Prop) (left : Call ε σ α) (here : σ) (right : Call ε τ α)
    (there : τ) : Prop :=
  Coupled left here right there (fun value next other after => other = value ∧ Related next after)
    fun reason next other after => other = reason ∧ Related next after

theorem Simulated.bind {right : Call ε τ α} {nextLeft : α → Call ε σ β} {nextRight : α → Call ε τ β}
    (first : Simulated Related left here right there)
    (second : ∀ value middle after, Related middle after →
      Simulated Related (nextLeft value) middle (nextRight value) after) :
    Simulated Related (left >>= nextLeft) here (right >>= nextRight) there := by
  apply Coupled.bind first
  intro value middle other after same
  rw [same.1]
  exact second value middle after same.2

theorem simulated_throwIf {other : Prop} [Decidable other] {reason : ε} (same : condition ↔ other)
    (related : Related here there) :
    Simulated Related (throwIf condition reason) here (throwIf other reason) there :=
  coupled_ite same (fun _ => ⟨rfl, related⟩) fun _ => ⟨rfl, related⟩

theorem Simulated.outcome {right : Call ε τ α} {outcome : Except ε α} {next : σ}
    (simulated : Simulated Related left here right there)
    (ran : left.runFrom here = some (outcome, next)) :
    ∃ after, right.runFrom there = some (outcome, after) ∧ Related next after := by
  unfold Simulated Coupled at simulated
  rw [ran] at simulated
  generalize right.runFrom there = rightOutcome at simulated ⊢
  rcases outcome with reason | value
  · rcases rightOutcome with _ | ⟨_ | _, after⟩
    · exact simulated.elim
    · exact ⟨after, by rw [simulated.1], simulated.2⟩
    · exact simulated.elim
  · rcases rightOutcome with _ | ⟨_ | _, after⟩
    · exact simulated.elim
    · exact simulated.elim
    · exact ⟨after, by rw [simulated.1], simulated.2⟩

end Foundation.Call

namespace Foundation.Call

/-- States at a distance of at most so much. -/
structure Grading (σ : Type) where
  Moves : Nat → σ → σ → Prop
  still : ∀ state, Moves 0 state state
  further : ∀ {first second : Nat} {here mid next : σ}, Moves first here mid →
    Moves second mid next → Moves (first + second) here next
  weaker : ∀ {first second : Nat} {here next : σ}, first ≤ second → Moves first here next →
    Moves second here next

variable {ε δ σ α β : Type} {grading : Grading σ} {returned refused : Nat}

/-- Where the call returns it has moved the state by at most `returned`, and where it
is refused by at most `refused`; what it returns satisfies `Value`. -/
def Bounds (grading : Grading σ) (call : Call ε σ α) (returned refused : Nat)
    (Value : α → Prop) : Prop :=
  ∀ state, call.Permits state
    (fun value next => Value value ∧ grading.Moves returned state next)
    fun _ next => grading.Moves refused state next

variable {Value : α → Prop}

theorem bounds_pure {value : α} (holds : Value value) :
    Bounds grading (pure value : Call ε σ α) 0 0 Value := by
  intro state
  rw [permits_pure]
  exact ⟨holds, grading.still state⟩

theorem bounds_done {value : α} :
    Bounds grading (pure value : Call ε σ α) 0 0 fun _ => True :=
  bounds_pure trivial

variable {call : Call ε σ α}

theorem Bounds.bind {next : α → Call ε σ β} {After : β → Prop} {later laterRefused : Nat}
    (first : Bounds grading call returned refused Value)
    (second : ∀ value, Value value → Bounds grading (next value) later laterRefused After) :
    Bounds grading (call >>= next) (returned + later) (max refused (returned + laterRefused))
      After := by
  intro state
  rw [permits_bind]
  apply (first state).mono
  · rintro value middle ⟨holds, moved⟩
    apply (second value holds middle).mono
    · exact fun _ _ ⟨after, further⟩ => ⟨after, grading.further moved further⟩
    · exact fun _ _ further =>
        grading.weaker (Nat.le_max_right _ _) (grading.further moved further)
  · exact fun _ _ moved => grading.weaker (Nat.le_max_left _ _) moved

theorem Bounds.mono {most mostRefused : Nat} (bounds : Bounds grading call returned refused Value)
    (more : returned ≤ most) (moreRefused : refused ≤ mostRefused) :
    Bounds grading call most mostRefused fun _ => True := by
  intro state
  apply (bounds state).mono
  · exact fun _ _ ⟨_, moved⟩ => ⟨trivial, grading.weaker more moved⟩
  · exact fun _ _ moved => grading.weaker moreRefused moved

theorem Bounds.map {change : α → β} (bounds : Bounds grading call returned refused Value) :
    Bounds grading (change <$> call) returned refused fun _ => True := by
  intro state
  rw [permits_map]
  apply (bounds state).weaken
  exact fun _ _ ⟨_, moved⟩ => ⟨trivial, moved⟩

theorem bounds_of_keeps
    (keeps : ∀ state, call.Permits state (fun _ next => next = state) fun _ next => next = state) :
    Bounds grading call 0 0 fun _ => True := by
  intro state
  apply (keeps state).mono
  · rintro _ _ rfl
    exact ⟨trivial, grading.still _⟩
  · rintro _ _ rfl
    exact grading.still _

theorem bounds_throwIf {condition : Prop} [Decidable condition] {reason : ε} :
    Bounds grading (throwIf condition reason : Call ε σ PUnit) 0 0 fun _ => True := by
  apply bounds_of_keeps
  intro state
  rw [permits_throwIf]
  exact ⟨fun _ => rfl, fun _ => rfl⟩

theorem bounds_orThrow {value : Option α} {reason : ε} :
    Bounds grading (orThrow value reason : Call ε σ α) 0 0 fun _ => True := by
  apply bounds_of_keeps
  intro state
  rw [permits_orThrow]
  exact ⟨fun _ _ => rfl, fun _ => rfl⟩

theorem Bounds.translate {reasonOf : δ → ε} {call : Call δ σ α}
    (bounds : Bounds grading call returned refused Value) :
    Bounds grading (translate reasonOf call) returned refused Value := by
  intro state
  rw [permits_translate]
  exact bounds state

theorem bounds_reading {call : Call ε Unit α} :
    Bounds grading (reading call) 0 0 fun _ => True := by
  apply bounds_of_keeps
  intro state
  rw [reading, permits_map, within]
  split
  · exact permits_orPanic.mpr fun _ impossible => by cases impossible
  · exact permits_pure.mpr rfl
  · exact permits_throw.mpr rfl

end Foundation.Call

namespace Foundation.Call

def Computes {ε α : Type} (call : Call ε Unit α) (result : Except ε α) : Prop :=
  call.runFrom () = some (result, ())

variable {ε α β : Type} {condition : Prop} [Decidable condition] {reason : ε}

theorem computes_return {value : α} : Computes (pure value : Call ε Unit α) (.ok value) := rfl

theorem computes_bind {call : Call ε Unit α} {result : Except ε α} {next : α → Call ε Unit β}
    {later : α → Except ε β} (first : Computes call result)
    (agree : ∀ value, result = .ok value → Computes (next value) (later value)) :
    Computes (call >>= next) (result >>= later) := by
  unfold Computes at first ⊢
  rw [runFrom_bind, first]
  cases result with
  | error reason => rfl
  | ok value => exact agree value rfl

theorem computes_orRefusal (result : Except ε α) :
    Computes (orRefusal result : Call ε Unit α) result := by
  cases result <;> rfl

theorem computes_orPanic {value : Option α} {present : α} {next : α → Call ε Unit β}
    {result : Except ε β} (found : value = some present) (agree : Computes (next present) result) :
    Computes (orPanic value >>= next) result := by
  rw [found]
  exact agree

variable {next : PUnit → Call ε Unit α}

theorem computes_refused (refused : condition) :
    Computes (throwIf condition reason >>= next) (.error reason) := by
  rw [throwIf, if_pos refused]
  rfl

theorem computes_passed {result : Except ε α} (passed : ¬condition)
    (agree : Computes (next ⟨⟩) result) : Computes (throwIf condition reason >>= next) result := by
  rw [throwIf, if_neg passed]
  exact agree

theorem computes_throwIf {later : Except ε α} (agree : ¬condition → Computes (next ⟨⟩) later) :
    Computes (throwIf condition reason >>= next) (if condition then .error reason else later) := by
  by_cases refused : condition
  · rw [if_pos refused]
    exact computes_refused refused
  · rw [if_neg refused]
    exact computes_passed refused (agree refused)

end Foundation.Call
