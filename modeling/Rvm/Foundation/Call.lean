import Mathlib.Tactic.Common

/-!
Owns calls on a mutable state that may panic, be refused or return a value, and
the rules of their postconditions: one rule for each way to build a call, the
consequence rule and the loop rule.
-/

namespace Foundation

open ExceptT List

/-- A call on a state `σ`. The outer `Option` is a panic; a refused call keeps
the changes it made before it was refused. -/
abbrev Call (ε σ : Type) := ExceptT ε (StateT σ Option)

namespace Call

variable {ε σ τ α β : Type}

/-- The outcome of a call made in a state; `none` is a panic. -/
def runFrom (call : Call ε σ α) (state : σ) : Option (Except ε α × σ) :=
  (run call).run state

def orPanic (value : Option α) : Call ε σ α := liftM value

/-- Refuse, after a last change of the state. -/
def refuse (reason : ε) (change : σ → σ) : Call ε σ α := do
  modify change
  throw reason

def throwIf (condition : Prop) [Decidable condition] (reason : ε) : Call ε σ PUnit :=
  if condition then throw reason else pure ⟨⟩

def refuseIf (condition : Prop) [Decidable condition] (reason : ε) (change : σ → σ) :
    Call ε σ PUnit :=
  if condition then refuse reason change else pure ⟨⟩

def orThrow (value : Option α) (reason : ε) : Call ε σ α :=
  match value with
  | some present => pure present
  | none => throw reason

def orRefuse (value : Option α) (reason : ε) (change : σ → σ) : Call ε σ α :=
  match value with
  | some present => pure present
  | none => refuse reason change

def orRefusal (result : Except ε α) : Call ε σ α :=
  match result with
  | .ok value => pure value
  | .error reason => throw reason

/-- A call whose refusals are reported for other reasons. -/
def translate {δ : Type} (reasonOf : δ → ε) (call : Call δ σ α) : Call ε σ α :=
  ExceptT.adapt reasonOf call

/-- The outcome of a call as a value, for a caller that goes on either way. -/
def attempt (call : Call ε σ α) : Call ε σ (Except ε α) :=
  tryCatch (Except.ok <$> call) fun reason => pure (Except.error reason)

/-- Make a call; where it is refused, change the state back and refuse. -/
def orUndo (call : Call ε σ α) (undo : σ → σ) : Call ε σ α := do
  match ← attempt call with
  | .ok value => pure value
  | .error reason => refuse reason undo

/-- Make a call as a transaction: nothing of a refused call is kept. -/
def atomically (call : Call ε σ α) : Call ε σ α := do
  let before ← get
  orUndo call fun _ => before

/-- Run a call on local variables of its own; its refusal is the caller's. -/
def within (locals : τ) (call : Call ε τ α) : Call ε σ (α × τ) :=
  match call.runFrom locals with
  | none => orPanic none
  | some (.ok value, final) => pure (value, final)
  | some (.error reason, _) => throw reason

/-- A call without a state, made in any. -/
def reading (call : Call ε Unit α) : Call ε σ α := Prod.fst <$> within () call

def onPart (part : σ → τ) (put : σ → τ → σ) (call : Call ε τ α) : Call ε σ α := do
  let here ← get
  let (outcome, next) ← orPanic (call.runFrom (part here))
  set (put here next)
  orRefusal outcome

/-- The call does not panic; where it returns, `Returned` holds of the value and
the new state, and where it is refused, `Refused` holds of the reason and the
new state. -/
def Ensures (call : Call ε σ α) (state : σ) (Returned : α → σ → Prop)
    (Refused : ε → σ → Prop) : Prop :=
  match call.runFrom state with
  | none => False
  | some (.ok value, next) => Returned value next
  | some (.error reason, next) => Refused reason next

variable {state : σ} {Returned : α → σ → Prop} {Refused : ε → σ → Prop}

@[simp]
theorem ensures_pure {value : α} :
    Ensures (pure value : Call ε σ α) state Returned Refused ↔ Returned value state :=
  Iff.rfl

variable {reason : ε} {call : Call ε σ α} {change : σ → σ} {value : Option α} {condition : Prop}
  {items : List α} {Made : α → β → Prop}

@[simp]
theorem ensures_throw :
    Ensures (throw reason : Call ε σ α) state Returned Refused ↔ Refused reason state :=
  Iff.rfl

theorem runFrom_bind (call : Call ε σ α) (next : α → Call ε σ β) :
    (call >>= next).runFrom state =
      match call.runFrom state with
      | none => none
      | some (.ok value, middle) => (next value).runFrom middle
      | some (.error reason, middle) => some (.error reason, middle) := by
  change (ExceptT.run call >>= ExceptT.bindCont next).run state = _
  rw [StateT.run_bind]
  unfold runFrom
  rcases (run call).run state with _ | ⟨_ | _, _⟩ <;> rfl

section Running

variable {condition : Prop} [Decidable condition]

@[simp] theorem runFrom_pure {value : α} :
    (pure value : Call ε σ α).runFrom state = some (.ok value, state) := rfl

@[simp] theorem runFrom_throw {reason : ε} :
    (throw reason : Call ε σ α).runFrom state = some (.error reason, state) := rfl

@[simp] theorem runFrom_get : (get : Call ε σ σ).runFrom state = some (.ok state, state) := rfl

@[simp] theorem runFrom_set {next : σ} :
    (set next : Call ε σ PUnit).runFrom state = some (.ok ⟨⟩, next) := rfl

@[simp] theorem runFrom_modify {change : σ → σ} :
    (modify change : Call ε σ PUnit).runFrom state = some (.ok ⟨⟩, change state) := rfl

@[simp] theorem runFrom_orPanic_some {value : α} :
    (orPanic (some value) : Call ε σ α).runFrom state = some (.ok value, state) := rfl

@[simp] theorem runFrom_orPanic_none :
    (orPanic none : Call ε σ α).runFrom state = none := rfl

end Running

theorem runFrom_return (call : Call ε σ α) (value : β) :
    (do
      let _ ← call
      return value).runFrom state =
      (call.runFrom state).map fun outcome => (outcome.1.map fun _ => value, outcome.2) := by
  rw [runFrom_bind]
  rcases call.runFrom state with _ | ⟨_ | _, _⟩ <;> rfl

@[simp]
theorem ensures_bind {next : α → Call ε σ β} {After : β → σ → Prop} :
    Ensures (call >>= next) state After Refused ↔
      call.Ensures state (fun value middle => (next value).Ensures middle After Refused)
        Refused := by
  unfold Ensures
  rw [runFrom_bind]
  rcases call.runFrom state with _ | ⟨_ | _, _⟩ <;> rfl

@[simp]
theorem ensures_map {change : α → β} {After : β → σ → Prop} :
    Ensures (change <$> call) state After Refused ↔
      call.Ensures state (fun value middle => After (change value) middle) Refused := by
  rw [← bind_pure_comp, ensures_bind]
  rfl

@[simp]
theorem ensures_get {Returned : σ → σ → Prop} :
    Ensures (get : Call ε σ σ) state Returned Refused ↔ Returned state state :=
  Iff.rfl

@[simp]
theorem ensures_set {next : σ} {Returned : PUnit → σ → Prop} :
    Ensures (set next : Call ε σ PUnit) state Returned Refused ↔ Returned ⟨⟩ next :=
  Iff.rfl

@[simp]
theorem ensures_modify {Returned : PUnit → σ → Prop} :
    Ensures (modify change : Call ε σ PUnit) state Returned Refused ↔
      Returned ⟨⟩ (change state) :=
  Iff.rfl

@[simp]
theorem ensures_orPanic :
    Ensures (orPanic value : Call ε σ α) state Returned Refused ↔
      ∃ present, value = some present ∧ Returned present state := by
  cases value with
  | none => simp [Ensures, orPanic, runFrom, liftM, monadLift, MonadLift.monadLift, ExceptT.lift,
      ExceptT.mk, ExceptT.run, StateT.run, StateT.lift, Functor.map, StateT.map]
  | some present => simp [Ensures, orPanic, runFrom, liftM, monadLift, MonadLift.monadLift,
      ExceptT.lift, ExceptT.mk, ExceptT.run, StateT.run, StateT.lift, Functor.map, StateT.map]

@[simp]
theorem ensures_refuse :
    Ensures (refuse reason change : Call ε σ α) state Returned Refused ↔
      Refused reason (change state) :=
  Iff.rfl

@[simp]
theorem ensures_orThrow :
    Ensures (orThrow value reason : Call ε σ α) state Returned Refused ↔
      (∀ present, value = some present → Returned present state) ∧
        (value = none → Refused reason state) := by
  cases value <;> simp [orThrow]

@[simp]
theorem ensures_orRefuse :
    Ensures (orRefuse value reason change : Call ε σ α) state Returned Refused ↔
      (∀ present, value = some present → Returned present state) ∧
        (value = none → Refused reason (change state)) := by
  cases value <;> simp [orRefuse]

@[simp]
theorem ensures_orRefusal {result : Except ε α} :
    Ensures (orRefusal result : Call ε σ α) state Returned Refused ↔
      (∀ value, result = .ok value → Returned value state) ∧
        (∀ reason, result = .error reason → Refused reason state) := by
  cases result <;> simp [orRefusal]

theorem runFrom_translate {δ : Type} (reasonOf : δ → ε) (call : Call δ σ α) :
    (translate reasonOf call).runFrom state =
      (call.runFrom state).map fun outcome => (outcome.1.mapError reasonOf, outcome.2) := by
  change (Except.mapError reasonOf <$> ExceptT.run call).run state = _
  rw [StateT.run_map]
  rfl

@[simp]
theorem ensures_translate {δ : Type} {reasonOf : δ → ε} {call : Call δ σ α} :
    Ensures (translate reasonOf call) state Returned Refused ↔
      call.Ensures state Returned fun reason next => Refused (reasonOf reason) next := by
  unfold Ensures
  rw [runFrom_translate]
  rcases call.runFrom state with _ | ⟨_ | _, _⟩ <;> rfl

theorem runFrom_attempt (call : Call ε σ α) : (attempt call).runFrom state =
    (call.runFrom state).map fun result => (.ok result.1, result.2) := by
  change ((run (Except.ok <$> call)).run state >>= _) = _
  rw [run_map, StateT.run_map]
  unfold runFrom
  rcases (run call).run state with _ | ⟨_ | _, _⟩ <;> rfl

@[simp]
theorem ensures_attempt {After : Except ε α → σ → Prop} :
    Ensures (attempt call) state After Refused ↔
      call.Ensures state (fun value next => After (.ok value) next)
        (fun reason next => After (.error reason) next) := by
  unfold Ensures
  rw [runFrom_attempt]
  rcases call.runFrom state with _ | ⟨_ | _, _⟩ <;> rfl

@[simp]
theorem ensures_orUndo {undo : σ → σ} :
    Ensures (orUndo call undo) state Returned Refused ↔
      call.Ensures state Returned fun reason next => Refused reason (undo next) := by
  unfold orUndo
  rw [ensures_bind, ensures_attempt]
  rfl

@[simp]
theorem ensures_atomically :
    Ensures (atomically call) state Returned Refused ↔
      call.Ensures state Returned fun reason _ => Refused reason state := by
  rw [atomically, ensures_bind, ensures_get, ensures_orUndo]

@[simp]
theorem ensures_within {locals : τ} {call : Call ε τ α} {After : α × τ → σ → Prop} :
    Ensures (within locals call : Call ε σ (α × τ)) state After Refused ↔
      call.Ensures locals (fun value final => After (value, final) state)
        (fun reason _ => Refused reason state) := by
  unfold within
  conv_rhs => unfold Ensures
  rcases call.runFrom locals with _ | ⟨_ | _, _⟩
  · simp
  · exact ensures_throw
  · exact ensures_pure

@[simp]
theorem ensures_onPart {part : σ → τ} {put : σ → τ → σ} {call : Call ε τ α} :
    Ensures (onPart part put call) state Returned Refused ↔
      call.Ensures (part state) (fun value next => Returned value (put state next))
        fun reason next => Refused reason (put state next) := by
  simp only [onPart, ensures_bind, ensures_get, ensures_set, ensures_orPanic, ensures_orRefusal]
  unfold Ensures
  rcases call.runFrom (part state) with _ | ⟨_ | _, _⟩ <;> simp

@[simp]
theorem ensures_reading {call : Call ε Unit α} :
    Ensures (reading call : Call ε σ α) state Returned Refused ↔
      call.Ensures () (fun value _ => Returned value state) fun reason _ => Refused reason state := by
  rw [reading, ensures_map, ensures_within]

@[simp]
theorem ensures_ite [Decidable condition] {yes no : Call ε σ α} :
    Ensures (if condition then yes else no) state Returned Refused ↔
      (condition → yes.Ensures state Returned Refused) ∧
        (¬condition → no.Ensures state Returned Refused) := by
  split <;> simp_all

@[simp]
theorem ensures_throwIf [Decidable condition] {Returned : PUnit → σ → Prop} :
    Ensures (throwIf condition reason : Call ε σ PUnit) state Returned Refused ↔
      (condition → Refused reason state) ∧ (¬condition → Returned ⟨⟩ state) := by
  simp [throwIf]

@[simp]
theorem ensures_refuseIf [Decidable condition] {Returned : PUnit → σ → Prop} :
    Ensures (refuseIf condition reason change : Call ε σ PUnit) state Returned Refused ↔
      (condition → Refused reason (change state)) ∧ (¬condition → Returned ⟨⟩ state) := by
  simp [refuseIf]

/-- The consequence rule. -/
theorem Ensures.mono {Weaker : α → σ → Prop} {Other : ε → σ → Prop}
    (ensures : call.Ensures state Returned Refused)
    (returned : ∀ value next, Returned value next → Weaker value next)
    (refused : ∀ reason next, Refused reason next → Other reason next) :
    call.Ensures state Weaker Other := by
  unfold Ensures at ensures ⊢
  generalize call.runFrom state = outcome at ensures ⊢
  rcases outcome with _ | ⟨_ | _, _⟩
  · exact ensures
  · exact refused _ _ ensures
  · exact returned _ _ ensures

theorem Ensures.weaken {Weaker : α → σ → Prop} (ensures : call.Ensures state Returned Refused)
    (returned : ∀ value next, Returned value next → Weaker value next) :
    call.Ensures state Weaker Refused :=
  ensures.mono returned fun _ _ refused => refused

theorem Ensures.outcome (ensures : call.Ensures state Returned Refused) :
    (∃ value next, call.runFrom state = some (.ok value, next) ∧ Returned value next) ∨
      ∃ reason next, call.runFrom state = some (.error reason, next) ∧ Refused reason next := by
  unfold Ensures at ensures
  rcases found : call.runFrom state with _ | ⟨reason | value, next⟩
  · rw [found] at ensures
    exact ensures.elim
  · rw [found] at ensures
    exact .inr ⟨reason, next, rfl, ensures⟩
  · rw [found] at ensures
    exact .inl ⟨value, next, rfl, ensures⟩

/-- A postcondition may say that it holds of the outcome of this very call. -/
theorem Ensures.traced (ensures : call.Ensures state Returned Refused) :
    call.Ensures state
      (fun value next => Returned value next ∧ call.runFrom state = some (.ok value, next))
      fun reason next => Refused reason next ∧ call.runFrom state = some (.error reason, next) := by
  revert ensures
  unfold Ensures
  rcases call.runFrom state with _ | ⟨_ | _, _⟩
  · exact id
  · exact fun refused => ⟨refused, rfl⟩
  · exact fun returned => ⟨returned, rfl⟩

theorem Ensures.both {Also : α → σ → Prop} {Other : ε → σ → Prop}
    (ensures : call.Ensures state Returned Refused) (also : call.Ensures state Also Other) :
    call.Ensures state (fun value next => Returned value next ∧ Also value next)
      fun reason next => Refused reason next ∧ Other reason next := by
  revert ensures also
  unfold Ensures
  rcases call.runFrom state with _ | ⟨_ | _, _⟩
  · exact fun impossible => impossible.elim
  · exact fun refused other => ⟨refused, other⟩
  · exact fun returned also => ⟨returned, also⟩

/-- The loop rule: an invariant of the elements already visited holds after the
loop, and a refusal comes from one of its rounds. -/
theorem ensures_forM {body : α → Call ε σ PUnit} {items : List α}
    {Invariant : List α → σ → Prop}
    (initial : Invariant [] state)
    (round : ∀ visited item rest here, items = visited ++ item :: rest →
      Invariant visited here →
      (body item).Ensures here (fun _ next => Invariant (visited ++ [item]) next) Refused) :
    Ensures (items.forM body) state (fun _ next => Invariant items next) Refused := by
  suffices loop : ∀ rest visited here, items = visited ++ rest → Invariant visited here →
      Ensures (rest.forM body) here (fun _ next => Invariant items next) Refused from
    loop items [] state rfl initial
  intro rest
  induction rest with
  | nil =>
    intro visited here split holds
    rw [append_nil] at split
    exact split ▸ holds
  | cons item rest ih =>
    intro visited here split holds
    change Ensures (body item >>= fun _ => rest.forM body) here _ _
    rw [ensures_bind]
    apply (round visited item rest here split holds).mono
    · intro _ next kept
      exact ih (visited ++ [item]) next (by simp [split]) kept
    · exact fun _ _ refused => refused

/-- The rule of a loop that updates a value of its own. -/
theorem ensures_foldlM (Invariant : List α → β → σ → Prop) {body : β → α → Call ε σ β} {start : β}
    (initial : Invariant [] start state)
    (round : ∀ visited item rest value here, items = visited ++ item :: rest →
      Invariant visited value here →
      (body value item).Ensures here (fun later next => Invariant (visited ++ [item]) later next)
        Refused) :
    Ensures (items.foldlM body start) state (fun final next => Invariant items final next)
      Refused := by
  suffices loop : ∀ rest visited value here, items = visited ++ rest →
      Invariant visited value here →
      Ensures (rest.foldlM body value) here (fun final next => Invariant items final next)
        Refused from
    loop items [] start state rfl initial
  intro rest
  induction rest with
  | nil =>
    intro visited value here split holds
    rw [append_nil] at split
    exact split ▸ holds
  | cons item rest ih =>
    intro visited value here split holds
    rw [foldlM_cons, ensures_bind]
    apply (round visited item rest value here split holds).mono
    · intro later next kept
      exact ih (visited ++ [item]) later next (by simp [split]) kept
    · exact fun _ _ refused => refused

theorem ensures_mapM_inOrder {body : α → Call ε Unit β} {Refused : ε → Unit → Prop}
    (round : ∀ item ∈ items, (body item).Ensures () (fun value _ => Made item value) Refused) :
    Ensures (items.mapM body) () (fun values _ => List.Forall₂ Made items values) Refused := by
  induction items with
  | nil => exact .nil
  | cons item rest ih =>
    rw [mapM_cons, ensures_bind]
    apply (round item mem_cons_self).mono _ fun _ _ refused => refused
    intro value _ made
    rw [ensures_bind]
    apply (ih fun item member =>
      round item (mem_cons_of_mem _ member)).mono _ fun _ _ refused => refused
    exact fun values _ others => .cons made others

theorem exists_of_inOrder {values : List β} (inOrder : List.Forall₂ Made items values) :
    ∀ value ∈ values, ∃ item ∈ items, Made item value := by
  induction inOrder with
  | nil => exact fun _ member => (not_mem_nil member).elim
  | cons made _ ih =>
    intro value member
    rcases mem_cons.mp member with rfl | member
    · exact ⟨_, mem_cons_self, made⟩
    · obtain ⟨source, among, made⟩ := ih value member
      exact ⟨source, mem_cons_of_mem _ among, made⟩

theorem ensures_mapM {body : α → Call ε Unit β} {Refused : ε → Unit → Prop}
    (round : ∀ item ∈ items, (body item).Ensures () (fun value _ => Made item value) Refused) :
    Ensures (items.mapM body) ()
      (fun values _ => ∀ value ∈ values, ∃ item ∈ items, Made item value) Refused :=
  (ensures_mapM_inOrder round).mono (fun _ _ inOrder => exists_of_inOrder inOrder)
    fun _ _ refused => refused

end Call

end Foundation
