import Rvm.Foundation.Postconditions
import Rvm.Host.Broker

/-!
Owns the quota of the reference policy over whole runs of the broker, its
independence of the order of the rules, and with the law of a run the guarantee of
the semantic broker.
-/

namespace Rvm.Host

open Foundation Foundation.Call Rvf HostCall Octets List

def HostCall.granted : HostCall → Bool
  | .decide _ _ _ (some true) => true
  | _ => false

namespace Broker

variable {σ Output : Type} {callbacks : Callbacks σ Output} {here : Broker σ}

/-- The state covers the attempts that the policy may still allow. -/
structure Metered (callbacks : Callbacks σ Output) (meter : σ → Nat) : Prop where
  permits : ∀ here subject capability,
    meter (callbacks.permits here subject capability).2 ≤ meter here
  identity : ∀ here, meter (callbacks.identity here).2 ≤ meter here
  decide : ∀ here subject action nowNs, meter (callbacks.decide here subject action nowNs).2 +
    (if (callbacks.decide here subject action nowNs).1 = some true then 1 else 0) ≤ meter here
  persist : ∀ here receipt, meter (callbacks.persist here receipt).2 ≤ meter here
  execute : ∀ here action, meter (callbacks.execute here action).2 ≤ meter here

/-- What is left of the quota, and what of it is used. -/
def spent (meter : σ → Nat) (here : Broker σ) : Nat :=
  meter here.surroundings + here.calls.countP granted

variable {α : Type} {meter : σ → Nat} {callback : σ → α × σ} {noted : α → HostCall}

theorem spent_ask (covered : meter (callback here.surroundings).2 +
      (if (noted (callback here.surroundings).1).granted then 1 else 0) ≤
        meter here.surroundings) :
    (ask callback noted).Ensures here (fun _ next => spent meter next ≤ spent meter here)
      fun _ _ => False := by
  rw [ensures_ask]
  show meter (callback here.surroundings).2 + List.countP _ (here.calls ++ _) ≤ _
  rw [countP_append, countP_singleton, spent]
  omega

theorem spent_other (covered : meter (callback here.surroundings).2 ≤ meter here.surroundings)
    (other : ∀ answer, (noted answer).granted = false) :
    (ask callback noted).Ensures here (fun _ next => spent meter next ≤ spent meter here)
      fun _ _ => False := by
  apply spent_ask
  rw [other]
  exact covered

theorem decision_spent (metered : Metered callbacks meter) (action : Action) (nowNs : Nat) :
    (decision callbacks action nowNs).Ensures here
      (fun _ next => spent meter next ≤ spent meter here) fun _ _ => False := by
  unfold decision
  simp only [ensures_bind, ensures_get, ensures_ite, ensures_pure]
  refine ⟨fun _ => Nat.le_refl _, fun _ => ?_⟩
  apply (spent_other (metered.permits _ _ _) fun _ => rfl).weaken
  intro permitted middle fewer
  refine ⟨fun _ => fewer, fun _ => ?_⟩
  have charged := metered.decide middle.surroundings here.subject action nowNs
  apply (spent_ask _).weaken
  · intro answer next fewest
    rcases answer with _ | _ | _ <;> exact fewest.trans fewer
  · cases answer : (callbacks.decide middle.surroundings here.subject action nowNs).1 with
    | none => simpa [answer, granted] using charged
    | some allowed => cases allowed <;> simpa [answer, granted] using charged

theorem dispatch_spent {meter : σ → Nat} (metered : Metered callbacks meter) (action : Action)
    (nowNs : Nat) :
    (dispatch callbacks action nowNs).Ensures here
      (fun _ next => spent meter next ≤ spent meter here)
      fun _ next => spent meter next ≤ spent meter here := by
  have quiet : ∀ {α : Type} {call : BrokerCall σ α} {before : Broker σ}
      {After : α → Broker σ → Prop},
      call.Ensures before After (fun _ _ => False) →
      call.Ensures before After fun _ next => spent meter next ≤ spent meter here :=
    fun ensured => ensured.mono (fun _ _ after => after) fun _ _ impossible => impossible.elim
  unfold dispatch
  simp only [ensures_bind, ensures_get, ensures_throwIf, ensures_modify]
  refine ⟨fun _ => Nat.le_refl _, fun _ => ?_⟩
  apply (quiet (decision_spent metered action nowNs)).weaken
  intro decided first fewer
  apply (quiet (spent_other (metered.identity _) fun _ => rfl)).weaken
  intro policy second fewerSecond
  apply (quiet (spent_other (metered.persist _ _) fun _ => rfl)).weaken
  intro persisted third fewerThird
  have fewest : spent meter third ≤ spent meter here := (fewerThird.trans fewerSecond).trans fewer
  refine ⟨fun _ => fewest, fun _ => ⟨fun _ => fewest, fun _ => ?_⟩⟩
  apply (quiet (spent_other (metered.execute _ _) fun _ => rfl)).weaken
  exact fun _ _ fewerLast => fewerLast.trans fewest

variable {outside : σ → σ → Prop} {subject : Subject} {surroundings : σ}
  {labels : List (BrokerEvent Output)} {next final : Broker σ}

theorem spent_of_run (metered : Metered callbacks meter)
    (untouched : ∀ here next, outside here next → meter next ≤ meter here)
    (run : Run (Step callbacks outside) (new subject surroundings) labels final) :
    spent meter final ≤ meter surroundings := by
  induction run with
  | nil => exact Nat.le_refl _
  | @snoc _ _ here _ _ step ih =>
    cases step with
    | @dispatched _ event ran _ =>
      have spent := @dispatch_spent _ _ callbacks here meter metered event.action event.nowNs
      rw [Ensures, ran] at spent
      cases outcome : event.outcome <;> rw [outcome] at spent <;>
        exact spent.trans ih
    | interfered changed =>
      exact (Nat.add_le_add_right (untouched _ _ changed) _).trans ih

theorem executed_le_granted {events : List (DispatchEvent Output)}
    (lawful : ∀ event ∈ events, Lawful subject event) :
    events.countP (·.outcome.isOk) ≤ (asked events).countP granted := by
  induction events with
  | nil => exact Nat.le_refl 0
  | cons event events ih =>
    have later := ih fun other member =>
      lawful other (mem_cons_of_mem _ member)
    have split : asked (event :: events) = event.calls ++ asked events := flatMap_cons
    rw [split, countP_append, countP_cons, Nat.add_comm]
    refine Nat.add_le_add ?_ later
    obtain ⟨action, nowNs, outcome, calls⟩ := event
    cases outcome with
    | error refusal => exact Nat.zero_le _
    | ok output =>
      obtain ⟨policy, sequence, here⟩ :=
        (lawful _ mem_cons_self).executed output rfl
      rw [show calls = _ from here]
      rfl

/-- A metered policy allows no more than its meter shows at the start. -/
theorem granted_le_meter (metered : Metered callbacks meter)
    (untouched : ∀ here next, outside here next → meter next ≤ meter here)
    (run : Run (Step callbacks outside) (new subject surroundings) labels final) :
    (asked (dispatches labels)).countP granted ≤ meter surroundings := by
  calc (asked (dispatches labels)).countP granted
      = final.calls.countP granted := by rw [(ledger_of_run run).noted]
    _ ≤ spent meter final := Nat.le_add_left _ _
    _ ≤ meter surroundings := spent_of_run metered untouched run

variable {τ : Type} {others : Callbacks τ Output} {Related : σ → τ → Prop} {there : Broker τ}

def Answers {α : Type} (Related : σ → τ → Prop) (left : α × σ) (right : α × τ) : Prop :=
  right.1 = left.1 ∧ Related left.2 right.2

structure Simulation (callbacks : Callbacks σ Output) (others : Callbacks τ Output)
    (Related : σ → τ → Prop) : Prop where
  permits : ∀ here there subject capability, Related here there →
    Answers Related (callbacks.permits here subject capability)
      (others.permits there subject capability)
  identity : ∀ here there, Related here there →
    Answers Related (callbacks.identity here) (others.identity there)
  decide : ∀ here there subject action nowNs, Related here there →
    Answers Related (callbacks.decide here subject action nowNs)
      (others.decide there subject action nowNs)
  persist : ∀ here there receipt, Related here there →
    Answers Related (callbacks.persist here receipt) (others.persist there receipt)
  execute : ∀ here there action, Related here there →
    Answers Related (callbacks.execute here action) (others.execute there action)

/-- Brokers that differ in related states of their callbacks only. -/
structure Alike (Related : σ → τ → Prop) (here : Broker σ) (there : Broker τ) : Prop where
  subject : there.subject = here.subject
  surroundings : Related here.surroundings there.surroundings
  sequence : there.sequence = here.sequence
  lastNs : there.lastNs = here.lastNs
  calls : there.calls = here.calls

theorem ask_simulated {other : τ → α × τ} (alike : Alike Related here there)
    (answers : Answers Related (callback here.surroundings) (other there.surroundings)) :
    Simulated (Alike Related) (ask callback noted) here (ask other noted) there := by
  refine ⟨answers.1, alike.subject, answers.2, alike.sequence, alike.lastNs, ?_⟩
  show there.calls ++ [noted (other there.surroundings).1] = _
  rw [alike.calls, answers.1]

theorem decision_simulated (simulation : Simulation callbacks others Related)
    (alike : Alike Related here there) (action : Action) (nowNs : Nat) :
    Simulated (Alike Related) (decision callbacks action nowNs) here
      (decision others action nowNs) there := by
  unfold decision
  apply coupled_get_bind.mpr
  rw [alike.lastNs, alike.subject]
  refine coupled_ite Iff.rfl (fun _ => ⟨rfl, alike⟩) fun _ => ?_
  apply Simulated.bind (ask_simulated alike (simulation.permits _ _ _ _ alike.surroundings))
  intro permitted middle after alike
  refine coupled_ite Iff.rfl (fun _ => ⟨rfl, alike⟩) fun _ => ?_
  apply Simulated.bind (ask_simulated alike (simulation.decide _ _ _ _ _ alike.surroundings))
  intro answer middle after alike
  rcases answer with _ | _ | _ <;> exact ⟨rfl, alike⟩

theorem dispatch_simulated (simulation : Simulation callbacks others Related)
    (alike : Alike Related here there) (action : Action) (nowNs : Nat) :
    Simulated (Alike Related) (dispatch callbacks action nowNs) here
      (dispatch others action nowNs) there := by
  unfold dispatch
  apply coupled_get_bind.mpr
  rw [alike.sequence]
  generalize here.sequence = before
  apply Simulated.bind (simulated_throwIf Iff.rfl alike)
  intro _ here there alike
  apply Simulated.bind (decision_simulated simulation alike action nowNs)
  intro decided here there alike
  apply coupled_modify_bind.mpr
  rw [alike.lastNs]
  have alike : Alike Related { here with lastNs := max here.lastNs nowNs }
      { there with lastNs := max here.lastNs nowNs } :=
    ⟨alike.subject, alike.surroundings, alike.sequence, rfl, alike.calls⟩
  apply Simulated.bind (ask_simulated alike (simulation.identity _ _ alike.surroundings))
  intro policy here there alike
  apply coupled_get_bind.mpr
  rw [alike.subject, alike.sequence]
  apply coupled_modify_bind.mpr
  have alike : Alike Related { here with sequence := before + 1 }
      { there with sequence := before + 1 } :=
    ⟨alike.subject, alike.surroundings, rfl, alike.lastNs, alike.calls⟩
  apply Simulated.bind (ask_simulated alike (simulation.persist _ _ _ alike.surroundings))
  intro persisted here there alike
  apply Simulated.bind (simulated_throwIf Iff.rfl alike)
  intro _ here there alike
  apply Simulated.bind (simulated_throwIf Iff.rfl alike)
  intro _ here there alike
  exact ask_simulated alike (simulation.execute _ _ _ alike.surroundings)

theorem Simulation.run {otherOutside : τ → τ → Prop}
    (simulation : Simulation callbacks others Related)
    (follows : ∀ here there next, Related here there → outside here next →
      ∃ after, otherOutside there after ∧ Related next after)
    (alike : Alike Related here there)
    (run : Run (Step callbacks outside) here labels final) :
    ∃ other, Run (Step others otherOutside) there labels other ∧ Alike Related final other := by
  induction run with
  | nil => exact ⟨there, .nil, alike⟩
  | snoc _ step ih =>
    obtain ⟨middle, before, alike⟩ := ih
    cases step with
    | dispatched ran noted =>
      obtain ⟨other, otherRan, otherAlike⟩ :=
        (dispatch_simulated simulation alike _ _).outcome ran
      refine ⟨other, before.snoc (.dispatched otherRan ?_), otherAlike⟩
      rw [otherAlike.calls, noted, alike.calls]
    | interfered changed =>
      obtain ⟨after, otherChanged, related⟩ := follows _ _ _ alike.surroundings changed
      exact ⟨_, before.snoc (.interfered otherChanged),
        ⟨alike.subject, related, alike.sequence, alike.lastNs, alike.calls⟩⟩

end Broker

namespace Rules

variable {rules other : Rules} {entries reordered : List Rule}

theorem scan_eq (action : Action) (permitted : Bool) :
    scan action entries permitted =
      if ∃ entry ∈ entries, entry.action = action ∧ entry.permit = false then none
      else some (permitted || Decidable.decide (∃ entry ∈ entries, entry.action = action)) := by
  induction entries generalizing permitted with
  | nil => simp [scan]
  | cons entry entries ih =>
    rw [scan, ih, ih]
    by_cases same : entry.action = action
    · cases permit : entry.permit <;> simp [same, permit]
    · simp [same]

theorem scan_perm (perm : reordered.Perm entries) (action : Action) (permitted : Bool) :
    scan action reordered permitted = scan action entries permitted := by
  simp only [scan_eq, perm.mem_iff]

/-- The same rules in another order. -/
structure Reordered (rules other : Rules) : Prop where
  identity : other.identity = rules.identity
  entries : other.entries.Perm rules.entries
  remaining : other.remaining = rules.remaining

theorem Reordered.decide (same : Reordered rules other) (subject : Subject) (action : Action)
    (nowNs : Nat) :
    Broker.Answers Reordered (rules.decide subject action nowNs)
      (other.decide subject action nowNs) := by
  unfold Rules.decide
  rw [scan_perm same.entries, same.remaining]
  split
  · exact ⟨rfl, same⟩
  · split
    · exact ⟨rfl, same⟩
    · split
      · exact ⟨rfl, same⟩
      · exact ⟨rfl, same.identity, same.entries, rfl⟩

theorem decide_remaining (subject : Subject) (action : Action) (nowNs : Nat) :
    (rules.decide subject action nowNs).2.remaining +
      (if (rules.decide subject action nowNs).1 = some true then 1 else 0) ≤ rules.remaining := by
  unfold Rules.decide
  split
  · exact Nat.le_refl _
  · rename_i some
    split
    · exact Nat.le_refl _
    · split
      · exact Nat.le_refl _
      · exact Nat.le_of_eq (Nat.sub_add_cancel (Nat.pos_of_ne_zero some))

end Rules

namespace Broker

variable {τ Output : Type} {others : Callbacks τ Output}

theorem withRules_metered : Metered others.withRules (·.1.remaining) where
  permits _ _ _ := Nat.le_refl _
  identity _ := Nat.le_refl _
  decide _ subject action nowNs := Rules.decide_remaining subject action nowNs
  persist _ _ := Nat.le_refl _
  execute _ _ := Nat.le_refl _

/-- The same rules in another order, and the same state beside them. -/
def Sorted (here there : Rules × τ) : Prop := Rules.Reordered here.1 there.1 ∧ there.2 = here.2

theorem withRules_simulation : Simulation others.withRules others.withRules Sorted where
  permits here there subject capability sorted := by
    obtain ⟨same, beside⟩ := sorted
    refine ⟨?_, same, ?_⟩
    · show (others.permits there.2 subject capability).1 = _
      rw [beside]
      rfl
    · show (others.permits there.2 subject capability).2 = _
      rw [beside]
      rfl
  identity here there sorted := ⟨sorted.1.identity, sorted⟩
  decide here there subject action nowNs sorted :=
    have answers := sorted.1.decide subject action nowNs
    ⟨answers.1, answers.2, sorted.2⟩
  persist here there receipt sorted := by
    obtain ⟨same, beside⟩ := sorted
    refine ⟨?_, same, ?_⟩
    · show (others.persist there.2 receipt).1 = _
      rw [beside]
      rfl
    · show (others.persist there.2 receipt).2 = _
      rw [beside]
      rfl
  execute here there action sorted := by
    obtain ⟨same, beside⟩ := sorted
    refine ⟨?_, same, ?_⟩
    · show (others.execute there.2 action).1 = _
      rw [beside]
      rfl
    · show (others.execute there.2 action).2 = _
      rw [beside]
      rfl

/-- Between dispatches nothing else reaches the rules. -/
def aside (outside : τ → τ → Prop) (here next : Rules × τ) : Prop :=
  next.1 = here.1 ∧ outside here.2 next.2

/-- No effect without authority, policy and audit, whatever the callbacks do. The rules
let no more through than their quota, in any order. -/
theorem noEffectWithoutAudit :
    (∀ {σ Output : Type} (callbacks : Callbacks σ Output) (outside : σ → σ → Prop)
      (subject : Subject) (surroundings : σ) (labels : List (BrokerEvent Output))
      (final : Broker σ),
      Run (Step callbacks outside) (new subject surroundings) labels final →
        Mediated subject (dispatches labels)) ∧
    ∀ {τ Output : Type} (others : Callbacks τ Output) (outside : τ → τ → Prop)
      (subject : Subject) (identity : Octets 32) (rules reordered : List Rule) (attempts : Nat)
      (rest : τ) (labels : List (BrokerEvent Output)) (final : Broker (Rules × τ)),
      reordered.Perm rules →
      Run (Step others.withRules (aside outside))
        (new subject (Rules.new identity rules attempts, rest)) labels final →
        (asked (dispatches labels)).countP HostCall.granted ≤ attempts ∧
        (dispatches labels).countP (·.outcome.isOk) ≤ attempts ∧
        ∃ other, Run (Step others.withRules (aside outside))
          (new subject (Rules.new identity reordered attempts, rest)) labels other := by
  constructor
  · intro σ Output callbacks outside subject surroundings labels final run
    exact (ledger_of_run run).mediated
  · intro τ Output others outside subject identity rules reordered attempts rest labels final
      perm run
    have granted : (asked (dispatches labels)).countP HostCall.granted ≤ attempts :=
      granted_le_meter withRules_metered (fun _ _ kept => Nat.le_of_eq (by rw [kept.1])) run
    refine ⟨granted, (executed_le_granted (ledger_of_run run).lawful).trans granted, ?_⟩
    have alike : Alike Sorted (new subject (Rules.new identity rules attempts, rest))
        (new subject (Rules.new identity reordered attempts, rest)) :=
      ⟨rfl, ⟨⟨rfl, perm, rfl⟩, rfl⟩, rfl, rfl, rfl⟩
    have follows : ∀ (here there next : Rules × τ), Sorted here there →
        aside outside here next → ∃ after, aside outside there after ∧ Sorted next after := by
      intro here there next sorted kept
      refine ⟨(there.1, next.2), ⟨rfl, sorted.2 ▸ kept.2⟩, ?_, rfl⟩
      rw [kept.1]
      exact sorted.1
    obtain ⟨other, otherRun, _⟩ := withRules_simulation.run follows alike run
    exact ⟨other, otherRun⟩

def fullOnce : Callbacks Nat Unit where
  permits here _ _ := (true, here)
  identity here := (zero 32, here)
  decide here _ _ _ := (some true, here)
  persist here _ := (decide (0 < here), here + 1)
  execute here _ := ((), here)

def reader : Subject := ⟨zero 32, 9⟩

def readEvent (sequence : Nat) (persisted : Bool) : DispatchEvent Unit where
  action := .read "/project/readme"
  nowNs := 1
  outcome := if persisted then .ok () else .error .auditUnavailable
  calls :=
    [.permits reader .filesystem true, .decide reader (.read "/project/readme") 1 (some true),
      .identity (zero 32),
      .persist ⟨reader, zero 32, sequence, 1, .read "/project/readme", .allow⟩ persisted] ++
    if persisted then [.execute (.read "/project/readme")] else []

def fullOnceRun : List (BrokerEvent Unit) :=
  [.dispatched (readEvent 0 false), .dispatched (readEvent 1 true)]

theorem fullOnce_runs : ∃ final, Run (Step fullOnce fun _ _ => False) (new reader 0)
    fullOnceRun final := by
  have first : Step fullOnce (fun _ _ => False) (new reader 0) (.dispatched (readEvent 0 false))
      ⟨reader, 1, 1, 1, (readEvent 0 false).calls⟩ := .dispatched rfl rfl
  have second : Step fullOnce (fun _ _ => False) ⟨reader, 1, 1, 1, (readEvent 0 false).calls⟩
      (.dispatched (readEvent 1 true))
      ⟨reader, 2, 2, 1, (readEvent 0 false).calls ++ (readEvent 1 true).calls⟩ :=
    .dispatched rfl rfl
  exact ⟨_, (Run.single first).snoc second⟩

/-- The first receipt that the sink accepts need not have number 0. -/
theorem accepted_from_one : ¬ ∀ labels final,
    Run (Step fullOnce fun _ _ => False) (new reader 0) labels final →
    ∀ receipt ∈ (persistedReceipts (asked (dispatches labels))).head?, receipt.sequence = 0 := by
  intro claimed
  obtain ⟨final, run⟩ := fullOnce_runs
  have first := claimed fullOnceRun final run
    ⟨reader, zero 32, 1, 1, .read "/project/readme", .allow⟩ rfl
  cases first

def readerRules : List Rule :=
  [⟨.read "/project/readme", true⟩, ⟨.write "/project/readme", false⟩]

theorem noEffectWithoutAudit_fullOnce : Mediated reader (dispatches fullOnceRun) ∧
    (dispatches [.dispatched (readEvent 0 true)]).countP (·.outcome.isOk) ≤ 1 ∧
    ∃ other, Run (Step fullOnce.withRules (aside fun _ _ => False))
      (new reader (Rules.new (zero 32) readerRules.reverse 1, 1))
      [.dispatched (readEvent 0 true)] other := by
  obtain ⟨final, run⟩ := fullOnce_runs
  have permitted : Step fullOnce.withRules (aside fun _ _ => False)
      (new reader (Rules.new (zero 32) readerRules 1, 1)) (.dispatched (readEvent 0 true))
      ⟨reader, (Rules.new (zero 32) readerRules 0, 2), 1, 1, (readEvent 0 true).calls⟩ :=
    .dispatched rfl rfl
  have guaranteed := noEffectWithoutAudit.2 fullOnce (fun _ _ => False) reader (zero 32)
    readerRules readerRules.reverse 1 1 _ _ (reverse_perm _) (Run.single permitted)
  exact ⟨noEffectWithoutAudit.1 fullOnce _ reader 0 _ final run, guaranteed.2⟩

end Broker

end Rvm.Host
