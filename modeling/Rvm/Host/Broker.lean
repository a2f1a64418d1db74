import Rvm.Foundation.Bytes
import Rvm.Foundation.Call
import Rvm.Foundation.Run
import Rvm.Rvf.Declaration

/-!
Owns the semantic broker of `rvm-host/src/semantic.rs`: dispatch over arbitrary stateful
callbacks that share one state, the reference policy, and its law over runs. A ghost lists
what was asked of the callbacks; between dispatches their state may change.
-/

namespace Rvm.Host

open Foundation Foundation.Call Rvf List

/-- A structured operation. -/
inductive Action where
  | shell (program : String) (args : List String)
  | python (payload : Octets 32)
  | mcp (server tool : String) (input : Octets 32)
  | read (resource : String)
  | write (resource : String)
  | network (destination : String) (request : Octets 32)
deriving DecidableEq

/-- The live authority required before the policy is considered. -/
def Action.capability : Action → CapabilityClass
  | .shell _ _ | .python _ => .process
  | .mcp _ _ _ => .mcp
  | .read _ | .write _ => .filesystem
  | .network _ _ => .network

structure Subject where
  artifact : Octets 32
  instanceId : Nat
deriving DecidableEq

inductive Decision where
  | allow | capabilityDenied | policyDenied | policyUnavailable | clockRegressed
deriving DecidableEq, Repr

structure Receipt where
  subject : Subject
  policy : Octets 32
  sequence : Nat
  nowNs : Nat
  action : Action
  decision : Decision
deriving DecidableEq

/-- Refusal before an effect is dispatched. -/
inductive Refusal where
  | denied (decision : Decision)
  | auditUnavailable | sequenceExhausted
deriving DecidableEq, Repr

/-! ### Callbacks -/

/-- The traits `Authority`, `Policy`, `Audit` and `Executor`, over one state that
they may share. -/
structure Callbacks (σ Output : Type) where
  permits : σ → Subject → CapabilityClass → Bool × σ
  identity : σ → Octets 32 × σ
  decide : σ → Subject → Action → Nat → Option Bool × σ
  persist : σ → Receipt → Bool × σ
  execute : σ → Action → Output × σ

inductive HostCall where
  | permits (subject : Subject) (capability : CapabilityClass) (answer : Bool)
  | identity (answer : Octets 32)
  | decide (subject : Subject) (action : Action) (nowNs : Nat) (answer : Option Bool)
  | persist (receipt : Receipt) (answer : Bool)
  | execute (action : Action)
deriving DecidableEq

/-! ### Dispatch -/

structure Broker (σ : Type) where
  subject : Subject
  surroundings : σ
  sequence : Nat
  lastNs : Nat
  calls : List HostCall

namespace Broker

variable {σ Output : Type} (callbacks : Callbacks σ Output)

def new (subject : Subject) (surroundings : σ) : Broker σ := ⟨subject, surroundings, 0, 0, []⟩

abbrev BrokerCall (σ α : Type) := Call Refusal (Broker σ) α

def ask {α : Type} (callback : σ → α × σ) (noted : α → HostCall) : BrokerCall σ α := do
  let here ← get
  let (answer, surroundings) := callback here.surroundings
  set { here with surroundings := surroundings, calls := here.calls ++ [noted answer] }
  return answer

/-- The chain of checks before the receipt. -/
def decision (action : Action) (nowNs : Nat) : BrokerCall σ Decision := do
  let here ← get
  if nowNs < here.lastNs then return .clockRegressed
  else
    let permitted ← ask (callbacks.permits · here.subject action.capability)
      (.permits here.subject action.capability)
    if !permitted then return .capabilityDenied
    else
      let answer ← ask (callbacks.decide · here.subject action nowNs)
        (.decide here.subject action nowNs)
      match answer with
      | some true => return .allow
      | some false => return .policyDenied
      | none => return .policyUnavailable

def dispatch (action : Action) (nowNs : Nat) : BrokerCall σ Output := do
  let before ← get
  throwIf (before.sequence + 1 > u64Max) .sequenceExhausted
  let next := before.sequence + 1
  let decision ← decision callbacks action nowNs
  modify fun here => { here with lastNs := max here.lastNs nowNs }
  let policy ← ask callbacks.identity .identity
  let here ← get
  let receipt : Receipt := ⟨here.subject, policy, here.sequence, nowNs, action, decision⟩
  modify fun here => { here with sequence := next }
  let persisted ← ask (callbacks.persist · receipt) (.persist receipt)
  throwIf (!persisted) .auditUnavailable
  throwIf (decision ≠ .allow) (.denied decision)
  ask (callbacks.execute · receipt.action) fun _ => .execute receipt.action

end Broker

/-! ### The reference policy -/

structure Rule where
  action : Action
  permit : Bool
deriving DecidableEq

structure Rules where
  identity : Octets 32
  entries : List Rule
  remaining : Nat
deriving DecidableEq

namespace Rules

def new (identity : Octets 32) (rules : List Rule) (attempts : Nat) : Rules :=
  ⟨identity, rules, attempts⟩

/-- The loop over the entries; none where a forbid ends it. -/
def scan (action : Action) : List Rule → Bool → Option Bool
  | [], permitted => some permitted
  | entry :: rest, permitted =>
    if entry.action = action then
      if !entry.permit then none else scan action rest true
    else scan action rest permitted

def decide (rules : Rules) (_ : Subject) (action : Action) (_ : Nat) : Option Bool × Rules :=
  if rules.remaining = 0 then (some false, rules)
  else
    match scan action rules.entries false with
    | none => (some false, rules)
    | some permitted =>
      if !permitted then (some false, rules)
      else (some true, { rules with remaining := rules.remaining - 1 })

end Rules

/-- The broker's policy is a set of rules, which nothing else can reach; the other
callbacks are arbitrary. -/
def Callbacks.withRules {τ Output : Type} (others : Callbacks τ Output) :
    Callbacks (Rules × τ) Output where
  permits here subject capability :=
    let (answer, rest) := others.permits here.2 subject capability
    (answer, here.1, rest)
  identity here := (here.1.identity, here)
  decide here subject action nowNs :=
    let (answer, rules) := here.1.decide subject action nowNs
    (answer, rules, here.2)
  persist here receipt :=
    let (answer, rest) := others.persist here.2 receipt
    (answer, here.1, rest)
  execute here action :=
    let (output, rest) := others.execute here.2 action
    (output, here.1, rest)

/-! ### Receipts among the calls -/

/-- The receipts given to the audit sink, with its answer. -/
def HostCall.presented : HostCall → Option (Receipt × Bool)
  | .persist receipt answer => some (receipt, answer)
  | _ => none

/-- The receipts given to the audit sink. -/
def presentedReceipts (calls : List HostCall) : List Receipt :=
  (calls.filterMap HostCall.presented).map Prod.fst

/-- The receipts the audit sink accepted. -/
def persistedReceipts (calls : List HostCall) : List Receipt :=
  ((calls.filterMap HostCall.presented).filter Prod.snd).map Prod.fst

namespace Broker

variable {σ Output : Type} {callbacks : Callbacks σ Output} {here : Broker σ}

@[simp]
theorem ensures_ask {α : Type} {callback : σ → α × σ} {noted : α → HostCall}
    {Returned : α → Broker σ → Prop} {Refused : Refusal → Broker σ → Prop} :
    (ask callback noted).Ensures here Returned Refused ↔
      Returned (callback here.surroundings).1 { here with
        surroundings := (callback here.surroundings).2
        calls := here.calls ++ [noted (callback here.surroundings).1] } := by
  simp [ask]

/-! ### What one dispatch does -/

/-- What the checks before the receipt ask, and what they decide. -/
inductive Decides (subject : Subject) (lastNs : Nat) (action : Action) (nowNs : Nat) :
    List HostCall → Decision → Prop
  | clockRegressed : nowNs < lastNs → Decides subject lastNs action nowNs [] .clockRegressed
  | capabilityDenied : lastNs ≤ nowNs →
      Decides subject lastNs action nowNs [.permits subject action.capability false]
        .capabilityDenied
  | denied : lastNs ≤ nowNs →
      Decides subject lastNs action nowNs [.permits subject action.capability true,
        .decide subject action nowNs (some false)] .policyDenied
  | unavailable : lastNs ≤ nowNs →
      Decides subject lastNs action nowNs [.permits subject action.capability true,
        .decide subject action nowNs none] .policyUnavailable
  | allowed : lastNs ≤ nowNs →
      Decides subject lastNs action nowNs [.permits subject action.capability true,
        .decide subject action nowNs (some true)] .allow

theorem decision_spec (action : Action) (nowNs : Nat) :
    (decision callbacks action nowNs).Ensures here
      (fun decided next => ∃ asked surroundings,
        Decides here.subject here.lastNs action nowNs asked decided ∧
        next = { here with surroundings := surroundings, calls := here.calls ++ asked })
      fun _ _ => False := by
  unfold decision
  simp only [ensures_bind, ensures_get, ensures_ite, ensures_pure]
  constructor
  · intro regressed
    exact ⟨[], here.surroundings, .clockRegressed regressed, by rw [append_nil]⟩
  · intro current
    have current : here.lastNs ≤ nowNs := Nat.not_lt.mp current
    rw [ensures_ask]
    cases (callbacks.permits here.surroundings here.subject action.capability).1 with
    | false => exact ⟨fun _ => ⟨_, _, .capabilityDenied current, rfl⟩, fun none => absurd rfl none⟩
    | true =>
      refine ⟨fun none => absurd none (by decide), fun _ => ?_⟩
      rw [ensures_ask]
      dsimp only
      generalize callbacks.decide _ here.subject action nowNs = answered
      obtain ⟨answer, surroundings⟩ := answered
      rcases answer with _ | _ | _
      · exact ⟨_, surroundings, .unavailable current, by simp⟩
      · exact ⟨_, surroundings, .denied current, by simp⟩
      · exact ⟨_, surroundings, .allowed current, by simp⟩

inductive Dispatched (here : Broker σ) (action : Action) (nowNs : Nat) :
    List HostCall → Except Refusal Output → Prop
  | exhausted : here.sequence + 1 > u64Max →
      Dispatched here action nowNs [] (.error .sequenceExhausted)
  | unrecorded {asked : List HostCall} {decided : Decision} (policy : Octets 32) :
      here.sequence + 1 ≤ u64Max → Decides here.subject here.lastNs action nowNs asked decided →
      Dispatched here action nowNs (asked ++ [.identity policy,
        .persist ⟨here.subject, policy, here.sequence, nowNs, action, decided⟩ false])
        (.error .auditUnavailable)
  | denied {asked : List HostCall} {decided : Decision} (policy : Octets 32) :
      here.sequence + 1 ≤ u64Max → Decides here.subject here.lastNs action nowNs asked decided →
      decided ≠ .allow →
      Dispatched here action nowNs (asked ++ [.identity policy,
        .persist ⟨here.subject, policy, here.sequence, nowNs, action, decided⟩ true])
        (.error (.denied decided))
  | executed {asked : List HostCall} (policy : Octets 32) (output : Output) :
      here.sequence + 1 ≤ u64Max → Decides here.subject here.lastNs action nowNs asked .allow →
      Dispatched here action nowNs (asked ++ [.identity policy,
        .persist ⟨here.subject, policy, here.sequence, nowNs, action, .allow⟩ true,
        .execute action]) (.ok output)

structure After (here : Broker σ) (action : Action) (nowNs : Nat)
    (outcome : Except Refusal Output) (calls : List HostCall) (next : Broker σ) : Prop where
  dispatched : Dispatched here action nowNs calls outcome
  noted : next.calls = here.calls ++ calls
  subject : next.subject = here.subject
  sequence : next.sequence = here.sequence + (presentedReceipts calls).length
  lastNs : next.lastNs = if presentedReceipts calls = [] then here.lastNs else max here.lastNs nowNs

variable {subject : Subject} {lastNs nowNs : Nat} {action : Action} {decided : Decision}
  {outcome : Except Refusal Output} {calls : List HostCall}

theorem Decides.quiet {asked : List HostCall}
    (decides : Decides subject lastNs action nowNs asked decided) :
    asked.filterMap HostCall.presented = [] ∧ ∀ effect, .execute effect ∉ asked := by
  cases decides <;> exact ⟨rfl, by simp⟩

theorem presented_asked {asked : List HostCall}
    (decides : Decides subject lastNs action nowNs asked decided) (policy : Octets 32)
    (receipt : Receipt) (answer : Bool) (rest : List HostCall)
    (quiet : rest.filterMap HostCall.presented = []) :
    (asked ++ .identity policy :: .persist receipt answer :: rest).filterMap HostCall.presented =
      [(receipt, answer)] := by
  rw [filterMap_append, decides.quiet.1]
  simp [filterMap_cons, HostCall.presented, quiet]

theorem after_of_receipt {asked rest : List HostCall} {policy : Octets 32} {receipt : Receipt}
    {answer : Bool} {surroundings : σ}
    (decides : Decides here.subject here.lastNs action nowNs asked decided)
    (quiet : rest.filterMap HostCall.presented = []) (dispatched : Dispatched here action nowNs
      (asked ++ .identity policy :: .persist receipt answer :: rest) outcome) :
    After here action nowNs outcome (asked ++ .identity policy :: .persist receipt answer :: rest)
      ⟨here.subject, surroundings, here.sequence + 1, max here.lastNs nowNs,
        here.calls ++ (asked ++ .identity policy :: .persist receipt answer :: rest)⟩ := by
  have one : presentedReceipts (asked ++ .identity policy :: .persist receipt answer :: rest) =
      [receipt] := by
    rw [presentedReceipts, presented_asked decides policy receipt answer rest quiet]
    rfl
  refine ⟨dispatched, rfl, rfl, ?_, ?_⟩
  · rw [one]
    rfl
  · rw [one, if_neg (cons_ne_nil _ _)]

theorem dispatch_spec (action : Action) (nowNs : Nat) :
    (dispatch callbacks action nowNs).Ensures here
      (fun output next => ∃ calls, After here action nowNs (.ok output) calls next)
      fun refusal next => ∃ calls,
        @After σ Output here action nowNs (.error refusal) calls next := by
  unfold dispatch
  simp only [ensures_bind, ensures_get, ensures_throwIf]
  constructor
  · intro exhausted
    exact ⟨[], .exhausted exhausted, by simp, rfl, rfl, rfl⟩
  · intro room
    have room : here.sequence + 1 ≤ u64Max := Nat.not_lt.mp room
    apply (decision_spec action nowNs).mono _ fun _ _ impossible => impossible.elim
    rintro decided _ ⟨asked, surroundings, decides, rfl⟩
    simp only [ensures_modify, ensures_ask]
    generalize callbacks.identity surroundings = identified
    obtain ⟨policy, surroundings⟩ := identified
    generalize callbacks.persist surroundings _ = persisted
    obtain ⟨answer, surroundings⟩ := persisted
    simp only [append_assoc, cons_append, nil_append]
    cases answer with
    | false =>
      refine ⟨fun _ => ?_, fun persisted => absurd rfl persisted⟩
      exact ⟨_, after_of_receipt decides rfl (.unrecorded policy room decides)⟩
    | true =>
      refine ⟨fun refused => absurd refused (by decide), fun _ => ⟨fun denied => ?_, fun allowed => ?_⟩⟩
      · exact ⟨_, after_of_receipt decides rfl (.denied policy room decides denied)⟩
      · obtain rfl := not_not.mp allowed
        exact ⟨_, after_of_receipt decides rfl (.executed policy _ room decides)⟩

/-! ### Runs -/

/-- A dispatch as its caller and its callbacks saw it. -/
structure DispatchEvent (Output : Type) where
  action : Action
  nowNs : Nat
  outcome : Except Refusal Output
  calls : List HostCall

inductive BrokerEvent (Output : Type) where
  | dispatched (event : DispatchEvent Output)
  | interfered

inductive Step (callbacks : Callbacks σ Output) (outside : σ → σ → Prop) :
    Broker σ → BrokerEvent Output → Broker σ → Prop
  | dispatched {here next : Broker σ} {event : DispatchEvent Output} :
      (dispatch callbacks event.action event.nowNs).runFrom here = some (event.outcome, next) →
      next.calls = here.calls ++ event.calls →
      Step callbacks outside here (.dispatched event) next
  | interfered {here : Broker σ} {surroundings : σ} :
      outside here.surroundings surroundings →
      Step callbacks outside here .interfered { here with surroundings := surroundings }

def BrokerEvent.dispatch? : BrokerEvent Output → Option (DispatchEvent Output)
  | .dispatched event => some event
  | .interfered => none

def dispatches (labels : List (BrokerEvent Output)) : List (DispatchEvent Output) :=
  labels.filterMap BrokerEvent.dispatch?

/-- What the callbacks of a run were asked. -/
def asked (events : List (DispatchEvent Output)) : List HostCall := events.flatMap (·.calls)

def DispatchEvent.Consults (event : DispatchEvent Output) : Prop :=
  ∃ subject action nowNs answer, .decide subject action nowNs answer ∈ event.calls

structure Lawful (subject : Subject) (event : DispatchEvent Output) : Prop where
  executed : ∀ output, event.outcome = .ok output → ∃ policy sequence, event.calls =
    [.permits subject event.action.capability true,
      .decide subject event.action event.nowNs (some true), .identity policy,
      .persist ⟨subject, policy, sequence, event.nowNs, event.action, .allow⟩ true,
      .execute event.action]
  refused : ∀ refusal, event.outcome = .error refusal → ∀ effect, .execute effect ∉ event.calls
  consulted : ∀ before who action nowNs answer after,
    event.calls = before ++ .decide who action nowNs answer :: after →
    before = [.permits subject event.action.capability true] ∧ who = subject ∧
      action = event.action ∧ nowNs = event.nowNs
  oneReceipt : (presentedReceipts event.calls).length ≤ 1

/-- The law of a whole run. -/
structure Mediated (subject : Subject) (events : List (DispatchEvent Output)) : Prop where
  lawful : ∀ event ∈ events, Lawful subject event
  numbered : (presentedReceipts (asked events)).map (·.sequence) =
    List.range (presentedReceipts (asked events)).length
  increasing : ((persistedReceipts (asked events)).map (·.sequence)).Pairwise (· < ·)
  consultedInTime : events.Pairwise fun earlier later =>
    later.Consults → earlier.nowNs ≤ later.nowNs
  executedInOrder : ((events.filter (·.outcome.isOk)).map (·.nowNs)).Pairwise (· ≤ ·)

theorem Decides.consults {asked : List HostCall}
    (decides : Decides subject lastNs action nowNs asked decided) :
    (asked = [] ∨ lastNs ≤ nowNs) ∧
      ((∃ answer, asked = [.permits subject action.capability answer]) ∨ asked = [] ∨
        ∃ answer, asked = [.permits subject action.capability true,
          .decide subject action nowNs answer]) := by
  cases decides with
  | clockRegressed _ => exact ⟨.inl rfl, .inr (.inl rfl)⟩
  | capabilityDenied current => exact ⟨.inr current, .inl ⟨_, rfl⟩⟩
  | denied current | unavailable current | allowed current =>
    exact ⟨.inr current, .inr (.inr ⟨_, rfl⟩)⟩

theorem Decides.consulted {who : Subject} {askedNs : Nat} {askedAction : Action}
    {asked rest before after : List HostCall} {answer : Option Bool}
    (decides : Decides subject lastNs action nowNs asked decided)
    (silent : ∀ who action nowNs answer, .decide who action nowNs answer ∉ rest)
    (split : asked ++ rest = before ++ .decide who askedAction askedNs answer :: after) :
    before = [.permits subject action.capability true] ∧ who = subject ∧ askedAction = action ∧
      askedNs = nowNs := by
  have never : ∀ {before : List HostCall},
      rest ≠ before ++ .decide who askedAction askedNs answer :: after := by
    intro before here
    apply silent who askedAction askedNs answer
    rw [here]
    exact mem_append_right _ mem_cons_self
  rcases decides.consults.2 with ⟨_, rfl⟩ | rfl | ⟨_, rfl⟩
  · cases before with
    | nil => cases split
    | cons first before => exact (never (List.cons.inj split).2).elim
  · exact (never split).elim
  · cases before with
    | nil => cases split
    | cons first before =>
      simp only [cons_append, nil_append, List.cons.injEq] at split
      obtain ⟨rfl, split⟩ := split
      cases before with
      | nil =>
        simp only [nil_append, List.cons.injEq, HostCall.decide.injEq] at split
        exact ⟨rfl, split.1.1.symm, split.1.2.1.symm, split.1.2.2.1.symm⟩
      | cons second before => exact (never (List.cons.inj split).2).elim

/-- A dispatch that asked anything had room for its receipt, and its receipt has the
next number. -/
theorem Dispatched.receipts (dispatched : Dispatched here action nowNs calls outcome) :
    (here.sequence + 1 > u64Max ∧ calls = []) ∨ (here.sequence + 1 ≤ u64Max ∧
      (presentedReceipts calls).map (·.sequence) = [here.sequence]) := by
  have one : ∀ {asked rest : List HostCall} {decided : Decision} {policy : Octets 32}
      {answer : Bool}, Decides here.subject here.lastNs action nowNs asked decided →
      rest.filterMap HostCall.presented = [] →
      (presentedReceipts (asked ++ .identity policy :: .persist ⟨here.subject, policy,
        here.sequence, nowNs, action, decided⟩ answer :: rest)).map (·.sequence) =
        [here.sequence] := by
    intro asked rest decided policy answer decides quiet
    rw [presentedReceipts, presented_asked decides policy _ answer rest quiet]
    rfl
  cases dispatched with
  | exhausted full => exact .inl ⟨full, rfl⟩
  | unrecorded policy room decides | denied policy room decides _
  | executed policy output room decides => exact .inr ⟨room, one decides rfl⟩

theorem Dispatched.oneReceipt (dispatched : Dispatched here action nowNs calls outcome) :
    (presentedReceipts calls).length ≤ 1 := by
  rcases dispatched.receipts with ⟨_, rfl⟩ | ⟨_, numbered⟩
  · exact Nat.zero_le 1
  · rw [← length_map, numbered]
    exact Nat.le_refl 1

theorem Dispatched.lawful (dispatched : Dispatched here action nowNs calls outcome) :
    Lawful here.subject ⟨action, nowNs, outcome, calls⟩ := by
  have oneReceipt := dispatched.oneReceipt
  cases dispatched with
  | exhausted full =>
    refine ⟨nofun, fun _ _ _ => not_mem_nil, fun before _ _ _ _ _ split => ?_, oneReceipt⟩
    cases (append_eq_nil_iff.mp split.symm).2
  | unrecorded policy room decides | denied policy room decides denied =>
    refine ⟨nofun, fun _ _ effect => ?_, fun _ _ _ _ _ _ split => ?_, oneReceipt⟩
    · simp [decides.quiet.2 effect]
    · exact decides.consulted (by simp) split
  | executed policy output room decides =>
    refine ⟨fun _ _ => ?_, nofun, fun _ _ _ _ _ _ split => ?_, oneReceipt⟩
    · cases decides
      exact ⟨policy, here.sequence, rfl⟩
    · exact decides.consulted (by simp) split

theorem Dispatched.current (dispatched : Dispatched here action nowNs calls outcome)
    (consults : DispatchEvent.Consults ⟨action, nowNs, outcome, calls⟩) :
    here.sequence + 1 ≤ u64Max ∧ here.lastNs ≤ nowNs := by
  obtain ⟨_, _, _, _, member⟩ := consults
  change _ ∈ calls at member
  have current : ∀ {asked rest : List HostCall} {decided : Decision},
      Decides here.subject here.lastNs action nowNs asked decided →
      calls = asked ++ rest → (∀ who action nowNs answer, .decide who action nowNs answer ∉ rest) →
      here.lastNs ≤ nowNs := by
    rintro asked rest decided decides rfl silent
    rcases mem_append.mp member with inside | inside
    · exact decides.consults.1.resolve_left (ne_nil_of_mem inside)
    · exact (silent _ _ _ _ inside).elim
  cases dispatched with
  | exhausted full => cases member
  | unrecorded policy room decides | denied policy room decides _
  | executed policy output room decides => exact ⟨room, current decides rfl (by simp)⟩

/-! ### The law of a run -/

/-- What the history of a run leaves in its broker. -/
structure Ledger (subject : Subject) (labels : List (BrokerEvent Output)) (here : Broker σ) :
    Prop where
  owner : here.subject = subject
  noted : here.calls = asked (dispatches labels)
  numbered : (presentedReceipts here.calls).map (·.sequence) = List.range here.sequence
  clock : here.sequence + 1 ≤ u64Max → ∀ event ∈ dispatches labels, event.nowNs ≤ here.lastNs
  lawful : ∀ event ∈ dispatches labels, Lawful subject event
  inTime : (dispatches labels).Pairwise fun earlier later =>
    later.Consults → earlier.nowNs ≤ later.nowNs

variable {outside : σ → σ → Prop} {subject : Subject} {surroundings : σ}
  {labels : List (BrokerEvent Output)} {next final : Broker σ} {event : DispatchEvent Output}

theorem presentedReceipts_append (first second : List HostCall) :
    presentedReceipts (first ++ second) = presentedReceipts first ++ presentedReceipts second := by
  rw [presentedReceipts, filterMap_append, map_append]
  rfl

theorem dispatches_snoc_dispatched (labels : List (BrokerEvent Output)) :
    dispatches (labels ++ [.dispatched event]) = dispatches labels ++ [event] := by
  rw [dispatches, filterMap_append]
  rfl

theorem dispatches_snoc_interfered (labels : List (BrokerEvent Output)) :
    dispatches (labels ++ [.interfered]) = dispatches labels := by
  rw [dispatches, filterMap_append]
  exact append_nil _

theorem asked_snoc (events : List (DispatchEvent Output)) :
    asked (events ++ [event]) = asked events ++ event.calls := by
  rw [asked, flatMap_append, flatMap_singleton]
  rfl

theorem after_dispatch
    (ran : (dispatch callbacks event.action event.nowNs).runFrom here = some (event.outcome, next))
    (noted : next.calls = here.calls ++ event.calls) :
    After here event.action event.nowNs event.outcome event.calls next := by
  obtain ⟨action, nowNs, outcome, calls⟩ := event
  have spec := @dispatch_spec σ Output callbacks here action nowNs
  have same : ∃ found, After here action nowNs outcome found next := by
    cases outcome <;> rw [Ensures, show _ = some (_, next) from ran] at spec <;> exact spec
  obtain ⟨found, after⟩ := same
  obtain rfl : found = calls := append_cancel_left (after.noted.symm.trans noted)
  exact after

theorem Ledger.dispatched (ledger : Ledger subject labels here)
    (after : After here event.action event.nowNs event.outcome event.calls next) :
    Ledger subject (labels ++ [.dispatched event]) next := by
  have receipts := after.dispatched.receipts
  constructor
  · exact after.subject.trans ledger.owner
  · rw [dispatches_snoc_dispatched, asked_snoc, after.noted, ledger.noted]
  · rw [after.noted, presentedReceipts_append, map_append, ledger.numbered, after.sequence]
    rcases receipts with ⟨_, none⟩ | ⟨_, numbered⟩
    · rw [none]
      exact append_nil _
    · rw [← @List.length_map _ _ (presentedReceipts event.calls) (·.sequence), numbered,
        length_singleton, range_succ]
  · intro room earlier member
    rw [dispatches_snoc_dispatched, mem_append, mem_singleton] at member
    rcases receipts with ⟨full, none⟩ | ⟨fits, numbered⟩
    · rw [after.sequence, none] at room
      exact absurd room (Nat.not_le.mpr full)
    · have some : presentedReceipts event.calls ≠ [] := by
        intro none
        rw [none] at numbered
        cases numbered
      rw [after.lastNs, if_neg some]
      rcases member with before | rfl
      · exact (ledger.clock fits earlier before).trans (Nat.le_max_left _ _)
      · exact Nat.le_max_right _ _
  · intro other member
    rw [dispatches_snoc_dispatched, mem_append, mem_singleton] at member
    rcases member with before | rfl
    · exact ledger.lawful other before
    · exact ledger.owner ▸ after.dispatched.lawful
  · rw [dispatches_snoc_dispatched, pairwise_append]
    refine ⟨ledger.inTime, pairwise_singleton _ _, fun earlier member later last => ?_⟩
    rw [mem_singleton.mp last]
    intro consults
    obtain ⟨room, current⟩ := after.dispatched.current consults
    exact (ledger.clock room earlier member).trans current

theorem ledger_of_run
    (run : Run (Step callbacks outside) (new subject surroundings) labels final) :
    Ledger subject labels final := by
  refine run.invariant ⟨rfl, rfl, rfl, nofun, nofun, .nil⟩ ?_
  intro labels here label next _ ledger step
  cases step with
  | dispatched ran noted => exact ledger.dispatched (after_dispatch ran noted)
  | interfered _ =>
    have same := dispatches_snoc_interfered labels
    exact ⟨ledger.owner, same ▸ ledger.noted, ledger.numbered, same ▸ ledger.clock,
      same ▸ ledger.lawful, same ▸ ledger.inTime⟩

theorem persisted_sublist (calls : List HostCall) :
    (persistedReceipts calls).Sublist (presentedReceipts calls) :=
  filter_sublist.map Prod.fst

theorem Lawful.consults (lawful : Lawful subject event) (executed : event.outcome.isOk = true) :
    event.Consults := by
  obtain ⟨action, nowNs, outcome, calls⟩ := event
  cases outcome with
  | error refusal => cases executed
  | ok output =>
    obtain ⟨policy, sequence, here⟩ := lawful.executed output rfl
    refine ⟨subject, action, nowNs, some true, ?_⟩
    rw [here]
    exact mem_cons_of_mem _ mem_cons_self

theorem Ledger.mediated (ledger : Ledger subject labels here) :
    Mediated subject (dispatches labels) := by
  have numbered := ledger.numbered
  rw [ledger.noted] at numbered
  have counted : here.sequence = (presentedReceipts (asked (dispatches labels))).length := by
    rw [← length_range (n := here.sequence), ← numbered, length_map]
  constructor
  · exact ledger.lawful
  · rw [numbered, counted]
  · have ordered : ((presentedReceipts (asked (dispatches labels))).map
        (·.sequence)).Pairwise (· < ·) := by
      rw [numbered]
      exact pairwise_lt_range
    exact ordered.sublist ((persisted_sublist _).map _)
  · exact ledger.inTime
  · rw [pairwise_map, pairwise_filter]
    apply ledger.inTime.imp_of_mem
    intro earlier later _ member inTime _ executed
    exact inTime ((ledger.lawful later member).consults executed)

end Broker

end Rvm.Host
