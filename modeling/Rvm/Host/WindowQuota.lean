import Rvm.Foundation.Counting
import Rvm.Host.Broker

/-!
Owns the sliding-window quota of `rvm-host/src/semantic.rs` around an arbitrary
inner policy: its decisions, and over whole runs with any clock the bound on every
window.
-/

namespace Rvm.Host

open Foundation Rvf List

/-- The trait `Policy`, over a state of its own. -/
structure Policy (σ : Type) where
  identity : σ → Octets 32
  decide : σ → Subject → Action → Nat → Option Bool × σ

structure WindowQuota (σ : Type) where
  inner : σ
  limit : Nat
  windowNs : Nat
  admitted : List Nat

namespace WindowQuota

variable {σ : Type}

/-- At most 4096 tracked attempts and a nonzero window. -/
def new (inner : σ) (limit windowNs : Nat) : Option (WindowQuota σ) :=
  if limit = 0 ∨ limit > 4096 ∨ windowNs = 0 then none
  else some ⟨inner, limit, windowNs, []⟩

/-- The quota after the admissions that left the window are dropped. -/
def retained (nowNs : Nat) (here : WindowQuota σ) : WindowQuota σ :=
  { here with admitted := here.admitted.filter fun point => nowNs - point < here.windowNs }

/-- Later entries indicate a regressing clock and are never dropped. -/
def decide (policy : Policy σ) (here : WindowQuota σ) (subject : Subject) (action : Action)
    (nowNs : Nat) : Option Bool × WindowQuota σ :=
  if here.admitted.any fun point => point > nowNs then (none, here)
  else
    let here := here.retained nowNs
    if here.limit ≤ here.admitted.length then (some false, here)
    else
      match policy.decide here.inner subject action nowNs with
      | (some true, inner) =>
        (some true, { here with inner := inner, admitted := here.admitted ++ [nowNs] })
      | (other, inner) => (other, { here with inner := inner })

def policy (inner : Policy σ) : Policy (WindowQuota σ) where
  identity := fun here => inner.identity here.inner
  decide := decide inner

structure DecideEvent where
  subject : Subject
  action : Action
  nowNs : Nat
  answer : Option Bool

variable {policy : Policy σ} {here next : WindowQuota σ} {event : DecideEvent}

def innerAnswer (policy : Policy σ) (here : WindowQuota σ) (event : DecideEvent) : Option Bool :=
  (policy.decide here.inner event.subject event.action event.nowNs).1

/-- How a decision comes about. -/
inductive Decided (policy : Policy σ) (here : WindowQuota σ) (event : DecideEvent) :
    WindowQuota σ → Prop
  | regressed {point : Nat} :
      point ∈ here.admitted → event.nowNs < point → event.answer = none →
      Decided policy here event here
  | exhausted : (∀ point ∈ here.admitted, point ≤ event.nowNs) →
      here.limit ≤ countEnding here.windowNs event.nowNs here.admitted →
      event.answer = some false → Decided policy here event (here.retained event.nowNs)
  | answered {inner : σ} : (∀ point ∈ here.admitted, point ≤ event.nowNs) →
      event.answer = innerAnswer policy here event → event.answer ≠ some true →
      Decided policy here event { here.retained event.nowNs with inner := inner }
  | admitted {inner : σ} : (∀ point ∈ here.admitted, point ≤ event.nowNs) →
      countEnding here.windowNs event.nowNs here.admitted < here.limit →
      event.answer = some true →
      Decided policy here event { here.retained event.nowNs with
        inner := inner, admitted := (here.retained event.nowNs).admitted ++ [event.nowNs] }

theorem length_retained {nowNs : Nat} (latest : ∀ point ∈ here.admitted, point ≤ nowNs) :
    (here.retained nowNs).admitted.length = countEnding here.windowNs nowNs here.admitted := by
  rw [retained, ← countP_eq_length_filter]
  apply countP_congr
  intro point member
  have before := latest point member
  simp only [decide_eq_true_eq]
  omega

theorem decide_spec
    (decided : here.decide policy event.subject event.action event.nowNs = (event.answer, next)) :
    Decided policy here event next := by
  unfold decide at decided
  split at decided
  · rename_i later
    obtain ⟨point, member, after⟩ := any_eq_true.mp later
    obtain ⟨answer, rfl⟩ := Prod.mk.inj decided
    exact .regressed member (of_decide_eq_true after) answer.symm
  · rename_i none
    have latest : ∀ point ∈ here.admitted, point ≤ event.nowNs := by
      intro point member
      refine Nat.not_lt.mp fun after => none ?_
      exact any_eq_true.mpr ⟨point, member, decide_eq_true after⟩
    have fresh := length_retained latest
    dsimp only at decided
    split at decided
    · rename_i full
      obtain ⟨answer, rfl⟩ := Prod.mk.inj decided
      exact .exhausted latest (fresh ▸ full) answer.symm
    · rename_i room
      change (match policy.decide here.inner event.subject event.action event.nowNs with
        | (some true, inner) => _
        | (other, inner) => _) = _ at decided
      rcases asked : policy.decide here.inner event.subject event.action event.nowNs with
        ⟨_ | _ | _, inner⟩ <;> rw [asked] at decided <;>
        obtain ⟨answer, rfl⟩ := Prod.mk.inj decided
      · exact .answered latest (by rw [innerAnswer, asked, answer]) (by rw [← answer]; nofun)
      · exact .answered latest (by rw [innerAnswer, asked, answer]) (by rw [← answer]; nofun)
      · exact .admitted latest (fresh ▸ Nat.not_le.mp room) answer.symm

inductive QuotaLabel where
  | decided (event : DecideEvent)
  | interfered

/-- A decision, or a change of the inner policy from outside. -/
inductive Step (policy : Policy σ) : WindowQuota σ → QuotaLabel → WindowQuota σ → Prop
  | decided {here next : WindowQuota σ} {event : DecideEvent} :
      here.decide policy event.subject event.action event.nowNs = (event.answer, next) →
      Step policy here (.decided event) next
  | interfered {here : WindowQuota σ} {inner : σ} :
      Step policy here .interfered { here with inner := inner }

/-- The clock values of the calls that were allowed. -/
def QuotaLabel.admission : QuotaLabel → Option Nat
  | .decided event => if event.answer = some true then some event.nowNs else none
  | .interfered => none

def QuotaLabel.clock : QuotaLabel → Option Nat
  | .decided event => some event.nowNs
  | .interfered => none

def admissions (labels : List QuotaLabel) : List Nat := labels.filterMap QuotaLabel.admission

def clocks (labels : List QuotaLabel) : List Nat := labels.filterMap QuotaLabel.clock

/-- A stored entry is later, so that the call is refused. -/
def Regresses (here : WindowQuota σ) (nowNs : Nat) : Prop := ∃ point ∈ here.admitted, nowNs < point

/-- At each call that no stored entry is later than, no admission that was made less than a window
away from it has been dropped. -/
def Remembered (policy : Policy σ) (quota : WindowQuota σ) (labels : List QuotaLabel) : Prop :=
  ∀ before event rest here, labels = before ++ .decided event :: rest →
    Run (Step policy) quota before here → here.Regresses event.nowNs ∨
    Remembers here.windowNs event.nowNs here.admitted (admissions before)

variable {quota final : WindowQuota σ} {labels : List QuotaLabel} {label : QuotaLabel}
  {inner : σ} {limit windowNs : Nat}

theorem admissions_snoc : admissions (labels ++ [label]) =
    admissions labels ++ label.admission.toList := by
  unfold admissions
  cases admitted : label.admission <;> simp [filterMap_append, admitted]

theorem clocks_snoc : clocks (labels ++ [label]) = clocks labels ++ label.clock.toList := by
  unfold clocks
  cases timed : label.clock <;> simp [filterMap_append, timed]

theorem Step.bounds (step : Step policy here label next) :
    next.limit = here.limit ∧ next.windowNs = here.windowNs := by
  cases step with
  | decided decided => cases decide_spec decided <;> exact ⟨rfl, rfl⟩
  | interfered => exact ⟨rfl, rfl⟩

theorem bounds_of_run (run : Run (Step policy) quota labels final) :
    final.limit = quota.limit ∧ final.windowNs = quota.windowNs := by
  induction run with
  | nil => exact ⟨rfl, rfl⟩
  | snoc _ step ih =>
    exact ⟨step.bounds.1.trans ih.1, step.bounds.2.trans ih.2⟩

theorem Step.sublist (step : Step policy here (.decided event) next)
    (other : event.answer ≠ some true) : next.admitted.Sublist here.admitted := by
  cases step with
  | decided decided =>
    cases decide_spec decided with
    | regressed => exact List.Sublist.refl _
    | exhausted => exact filter_sublist
    | answered => exact filter_sublist
    | admitted _ _ allowed => exact (other allowed).elim

theorem windowed_step {points : List Nat} (bounded : Windowed here.limit here.windowNs points)
    (remembers : here.Regresses event.nowNs ∨
      Remembers here.windowNs event.nowNs here.admitted points)
    (step : Step policy here (.decided event) next) :
    Windowed here.limit here.windowNs (points ++ (QuotaLabel.decided event).admission.toList) := by
  cases step with
  | decided decided =>
    rw [QuotaLabel.admission]
    cases decide_spec decided with
    | regressed _ _ answer => simpa [answer] using bounded
    | exhausted _ _ answer => simpa [answer] using bounded
    | answered _ _ other => simpa [other] using bounded
    | admitted latest room answer =>
      rw [if_pos answer]
      rcases remembers with ⟨point, member, after⟩ | remembers
      · exact absurd (latest point member) (Nat.not_le.mpr after)
      · exact bounded.snoc remembers latest room

theorem Remembered.before (remembered : Remembered policy quota (labels ++ [label])) :
    Remembered policy quota labels := by
  intro before event rest here split
  exact remembered before event (rest ++ [label]) here (by simp [split])

theorem windowed_of_run
    (run : Run (Step policy) quota labels final) (remembered : Remembered policy quota labels) :
    Windowed quota.limit quota.windowNs (admissions labels) := by
  induction run with
  | nil => exact windowed_nil
  | @snoc labels label here _ before step ih =>
    have bounded := ih remembered.before
    have bounds := bounds_of_run before
    rw [admissions_snoc]
    cases label with
    | interfered => simpa [QuotaLabel.admission] using bounded
    | decided event =>
      have remembers := remembered labels event [] here rfl before
      rw [← bounds.1, ← bounds.2] at bounded ⊢
      exact windowed_step bounded remembers step

/-- No clock value of the calls is later. -/
def Onward (times : List Nat) (nowNs : Nat) : Prop := ∀ time ∈ times, time ≤ nowNs

/-- What is kept while the clock does not regress: the admissions of every window
that is still open are stored. -/
structure Current (windowNs : Nat) (store points times : List Nat) : Prop where
  timed : ∀ point ∈ points, point ∈ times
  stored : store.Sublist points
  remembers : ∀ nowNs, Onward times nowNs → Remembers windowNs nowNs store points

variable {points times : List Nat}

theorem remembers_retained {nowNs later : Nat} (onward : nowNs ≤ later)
    (remembers : Remembers here.windowNs later here.admitted points) :
    Remembers here.windowNs later (here.retained nowNs).admitted points := by
  intro point near before
  rw [← remembers point near before]
  apply count_filter
  exact decide_eq_true (by omega)

theorem current_retained {nowNs : Nat}
    (current : Current here.windowNs here.admitted points times) :
    Current here.windowNs (here.retained nowNs).admitted points (times ++ [nowNs]) where
  timed point member := mem_append_left _ (current.timed point member)
  stored := filter_sublist.trans current.stored
  remembers later onward := by
    apply remembers_retained (onward nowNs (mem_append_right _ mem_cons_self))
    exact current.remembers later fun time member => onward time (mem_append_left _ member)

theorem current_step (current : Current here.windowNs here.admitted points times)
    (onward : Onward times event.nowNs) (step : Step policy here (.decided event) next) :
    Current here.windowNs next.admitted
      (points ++ (QuotaLabel.decided event).admission.toList) (times ++ [event.nowNs]) := by
  have kept := @current_retained _ here points times event.nowNs current
  cases step with
  | decided decided =>
    rw [QuotaLabel.admission]
    cases decide_spec decided with
    | regressed member after _ =>
      have before := onward _ (current.timed _ (current.stored.subset member))
      exact (Nat.not_lt.mpr before after).elim
    | exhausted _ _ answer => simpa [answer] using kept
    | answered _ _ other => simpa [other] using kept
    | admitted _ _ answer =>
      rw [if_pos answer]
      refine ⟨fun point member => ?_, kept.stored.append (List.Sublist.refl _), ?_⟩
      · rcases mem_append.mp member with earlier | new
        · exact kept.timed point earlier
        · exact mem_append_right _ new
      · intro later after point near before
        simp only [Option.toList_some, count_append]
        rw [kept.remembers later after point near before]

theorem new_eq (made : new inner limit windowNs = some quota) :
    quota = ⟨inner, limit, windowNs, []⟩ := by
  unfold new at made
  split at made
  · cases made
  · exact (Option.some.inj made).symm

theorem current_of_run (made : new inner limit windowNs = some quota)
    (run : Run (Step policy) quota labels final) (ordered : (clocks labels).Pairwise (· ≤ ·)) :
    Current final.windowNs final.admitted (admissions labels) (clocks labels) := by
  induction run with
  | nil =>
    rw [new_eq made]
    exact ⟨nofun, List.Sublist.refl _, fun _ _ _ _ _ => rfl⟩
  | @snoc labels label here next before step ih =>
    rw [clocks_snoc, pairwise_append] at ordered
    have current := ih ordered.1
    rw [admissions_snoc, clocks_snoc, step.bounds.2]
    cases label with
    | interfered =>
      cases step
      simpa [QuotaLabel.admission, QuotaLabel.clock] using current
    | decided event =>
      have onward : Onward (clocks labels) event.nowNs := fun time member =>
        ordered.2.2 time member event.nowNs mem_cons_self
      exact current_step current onward step

/-- While the clock does not regress nothing near a call has been dropped. -/
theorem remembered_of_ordered (made : new inner limit windowNs = some quota)
    (ordered : (clocks labels).Pairwise (· ≤ ·)) : Remembered policy quota labels := by
  rintro before event rest here rfl run
  have split : clocks (before ++ .decided event :: rest) =
      clocks before ++ event.nowNs :: clocks rest := filterMap_append
  rw [split, pairwise_append] at ordered
  refine .inr ((current_of_run made run ordered.1).remembers _ ?_)
  exact fun time member => ordered.2.2 time member event.nowNs mem_cons_self

theorem full_of_refused (current : Current here.windowNs here.admitted points times)
    (onward : Onward times event.nowNs) (step : Step policy here (.decided event) next)
    (refused : event.answer ≠ some true) (allowed : innerAnswer policy here event = some true) :
    here.limit ≤ countEnding here.windowNs event.nowNs points := by
  cases step with
  | decided decided =>
    cases decide_spec decided with
    | regressed member after _ =>
      have before := onward _ (current.timed _ (current.stored.subset member))
      exact (Nat.not_lt.mpr before after).elim
    | exhausted _ full _ => exact full.trans current.stored.countP_le
    | answered _ answer _ => exact (refused (answer.trans allowed)).elim
    | admitted _ _ answer => exact (refused answer).elim

/-- No window holds more admissions than the limit in a run each of whose calls finds a later entry
or comes near no dropped admission; under a clock that does not regress a refusal means a full
window. -/
theorem windowNeverExceeded (policy : Policy σ) (made : new inner limit windowNs = some quota) :
    (∀ labels final, Run (Step policy) quota labels final → Remembered policy quota labels →
      Windowed limit windowNs (admissions labels)) ∧
    (∀ labels final event next, Run (Step policy) quota labels final →
      Step policy final (.decided event) next → event.answer ≠ some true →
      next.admitted.Sublist final.admitted) ∧
    ∀ labels final, Run (Step policy) quota labels final → (clocks labels).Pairwise (· ≤ ·) →
      Windowed limit windowNs (admissions labels) ∧
      ∀ event next, Step policy final (.decided event) next →
        Onward (clocks labels) event.nowNs → event.answer ≠ some true →
        innerAnswer policy final event = some true →
        limit ≤ countEnding windowNs event.nowNs (admissions labels) := by
  have start := new_eq made
  have windowed : ∀ labels final, Run (Step policy) quota labels final →
      Remembered policy quota labels → Windowed limit windowNs (admissions labels) := by
    intro labels final run remembered
    have bounded := windowed_of_run run remembered
    rw [start] at bounded
    exact bounded
  refine ⟨windowed, fun _ _ _ _ _ step other => step.sublist other, ?_⟩
  intro labels final run ordered
  refine ⟨windowed labels final run (remembered_of_ordered made ordered), ?_⟩
  intro event next step onward refused allowed
  have bounds := bounds_of_run run
  rw [start] at bounds
  have full := full_of_refused (current_of_run made run ordered) onward step refused allowed
  rw [bounds.1, bounds.2] at full
  exact full

/-- A policy that allows every call but the one at a time. -/
def allBut (refusedNs : Nat) : Policy Unit where
  identity _ := ⟨List.replicate 32 0, rfl⟩
  decide _ _ _ nowNs := (some (nowNs ≠ refusedNs), ())

def attempt (nowNs : Nat) (answer : Option Bool) : DecideEvent where
  subject := ⟨⟨List.replicate 32 0, rfl⟩, 1⟩
  action := .read "/project/readme"
  nowNs := nowNs
  answer := answer

theorem windowNeverExceeded_secondAttempt :
    1 ≤ countEnding 100 50 (admissions [.decided (attempt 0 (some true))]) := by
  have run : Run (Step (allBut 7)) ⟨(), 1, 100, []⟩
      ([] ++ [.decided (attempt 0 (some true))]) _ := .snoc .nil (.decided rfl)
  exact ((windowNeverExceeded (allBut 7) rfl).2.2 _ _ run (by decide)).2
    (attempt 50 (some false)) _ (.decided rfl) (List.forall_mem_singleton.mpr (by decide))
    (by decide) (by decide)

/-- The call at 100 drops the admission at 0 and is refused; the call at 1 is then
allowed. -/
theorem forgottenAdmission :
    ∃ quota labels final, new () 1 100 = some quota ∧
      Run (Step (allBut 100)) quota labels final ∧
      admissions labels = [0, 1] ∧ ¬Windowed 1 100 (admissions labels) := by
  have run : Run (Step (allBut 100)) ⟨(), 1, 100, []⟩
      ((([] ++ [.decided (attempt 0 (some true))]) ++ [.decided (attempt 100 (some false))]) ++
        [.decided (attempt 1 (some true))]) _ :=
    ((Run.nil.snoc (.decided rfl)).snoc (.decided rfl)).snoc (.decided rfl)
  refine ⟨_, _, _, rfl, run, rfl, fun bounded => ?_⟩
  exact absurd (bounded 0) (by decide)

end WindowQuota

end Rvm.Host
