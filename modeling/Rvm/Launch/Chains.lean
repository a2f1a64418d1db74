import Rvm.Launch.Agents
import Rvm.Launch.Spans

/-!
Owns the witness chains of a fleet: over every run, the chain of an instance against the
records that were appended during its own operations.
-/

namespace Rvm.Launch

open Foundation Foundation.Call Witness Wasm Host List FleetEvent WitnessLog

variable {sha256 : List UInt8 → Octets 32}

/-- The instance in whose operation each record was appended. -/
def FleetEvent.tags : FleetEvent → List (Option Nat)
  | .created i appended | .called i _ _ appended => List.replicate appended (some i)
  | .creationRefused _ appended | .logged appended => List.replicate appended none
  | .adapted _ | .meddled => []

/-- The instance of each record of a log that had these records before a run. -/
def tagsOf (before : List WitnessCall) (history : List FleetEvent) : List (Option Nat) :=
  List.replicate before.length none ++ history.flatMap tags

theorem tagsOf_snoc (before : List WitnessCall) (history : List FleetEvent) (event : FleetEvent) :
    tagsOf before (history ++ [event]) = tagsOf before history ++ event.tags := by
  unfold tagsOf
  rw [flatMap_append, append_assoc, flatMap_singleton]

theorem tagsOf_append (before : List WitnessCall) (first : List FleetEvent) (event : FleetEvent)
    (rest : List FleetEvent) :
    tagsOf before (first ++ event :: rest) =
      tagsOf before first ++ (event.tags ++ rest.flatMap tags) := by
  unfold tagsOf
  rw [flatMap_append, flatMap_cons, append_assoc]

/-- Nothing but the guards refuses the call of this step. -/
def Proceeds (sha256 : List UInt8 → Octets 32) (here : Fleet) : FleetEvent → Prop
  | .called i call _ _ => ∀ own, here.instances[i]? = some own →
      call.Proceeds sha256 ⟨own, here.registry⟩
  | _ => True

/-- The spans of each instance cover what was appended in its operations. -/
structure Chained (before : List WitnessCall) (history : List FleetEvent) (fleet : Fleet) : Prop where
  length : fleet.registry.writes.length = (tagsOf before history).length
  spanning : ∀ (i : Nat) own, fleet.instances[i]? = some own →
    Spanning own.ranges i (tagsOf before history)
  known : ∀ (number : Nat) i, (tagsOf before history)[number]? = some (some i) →
    i < fleet.instances.length

theorem grown_eq {before after : List WitnessCall} (extension : before <+: after) :
    after.length = before.length + grown before after := by
  have longer := extension.length_le
  unfold grown
  omega

namespace Chained

variable {before : List WitnessCall} {history : List FleetEvent} {fleet next : Fleet}
  {event : FleetEvent} {count : Nat}

theorem silent (chained : Chained before history fleet) (tags : event.tags = List.replicate count none)
    (grows : next.registry.writes.length = fleet.registry.writes.length + count)
    (longer : next.instances.length = fleet.instances.length)
    (each : ∀ (i : Nat) own, next.instances[i]? = some own →
      ∃ was, fleet.instances[i]? = some was ∧ own.ranges = was.ranges) :
    Chained before (history ++ [event]) next := by
  constructor
  · rw [tagsOf_snoc, tags, length_append, length_replicate, grows, chained.length]
  · intro i own found
    obtain ⟨was, foundWas, same⟩ := each i own found
    rw [tagsOf_snoc, tags, same]
    exact (chained.spanning i was foundWas).other nofun
  · intro number i tagged
    rw [tagsOf_snoc, tags, getElem?_tagged] at tagged
    rw [longer]
    rcases tagged with earlier | ⟨_, impossible⟩
    · exact chained.known number i earlier
    · cases impossible

theorem spoken (chained : Chained before history fleet) {i : Nat}
    (tags : event.tags = List.replicate count (some i))
    (grows : next.registry.writes.length = fleet.registry.writes.length + count)
    (longer : fleet.instances.length ≤ next.instances.length) (below : i < next.instances.length)
    (own : ∀ own, next.instances[i]? = some own → ∃ earlier,
      Spanning earlier i (tagsOf before history) ∧ own.ranges =
        earlier ++ [(fleet.registry.writes.length, fleet.registry.writes.length + count)])
    (each : ∀ (j : Nat) other, j ≠ i → next.instances[j]? = some other →
      fleet.instances[j]? = some other) :
    Chained before (history ++ [event]) next := by
  constructor
  · rw [tagsOf_snoc, tags, length_append, length_replicate, grows, chained.length]
  · intro j other found
    rw [tagsOf_snoc, tags]
    by_cases same : j = i
    · obtain rfl := same
      obtain ⟨earlier, spanning, ranges⟩ := own other found
      rw [ranges, chained.length]
      exact spanning.own
    · exact (chained.spanning j other (each j other same found)).other
        fun impossible => same (Option.some.inj impossible).symm
  · intro number j tagged
    rw [tagsOf_snoc, tags, getElem?_tagged] at tagged
    rcases tagged with earlier | ⟨_, mine⟩
    · exact (chained.known number j earlier).trans_le longer
    · exact Option.some.inj mine ▸ below

theorem called_spanned {own : Instance} {scene : Scene} {call : LifecycleCall}
    {outcome : Except LaunchError (Option Checkpoint)}
    (proceeds : call.Proceeds sha256 ⟨own, fleet.registry⟩)
    (ran : (call.make sha256).runFrom ⟨own, fleet.registry⟩ = some (outcome, scene)) :
    (∃ appended, Spanned ⟨own, fleet.registry⟩ scene appended) ∧
      ∀ reason, outcome = .error reason → Refused ⟨own, fleet.registry⟩ scene := by
  have spec := make_spans call proceeds
  rw [Ensures, ran] at spec
  cases outcome with
  | ok value => exact ⟨spec, by simp⟩
  | error reason =>
    obtain ⟨record, spanned, kind⟩ := spec
    exact ⟨⟨_, spanned⟩, fun _ _ => ⟨record, spanned, kind⟩⟩

theorem step (chained : Chained before history fleet)
    (step : Guarded (Step sha256 fun _ => True) (Proceeds sha256) fleet event next) :
    Chained before (history ++ [event]) next := by
  obtain ⟨step, proceeds⟩ := step
  cases step with
  | @created id adapter package placement timestampNs own writes kind ran =>
    have spec := create_spec id adapter package placement timestampNs fleet.registry.writes
    rw [Ensures, ran] at spec
    obtain ⟨_, ranges, extension⟩ := spec
    apply chained.spoken rfl (grown_eq extension)
    · rw [length_append]
      omega
    · rw [length_append, length_singleton]
      omega
    · intro other found
      rw [List.getElem?_concat_length] at found
      obtain rfl := Option.some.inj found
      refine ⟨[], Spanning.empty fun number tagged => ?_, ?_⟩
      · exact Nat.lt_irrefl _ (chained.known number _ tagged)
      · rw [ranges, ← grown_eq extension]
        rfl
    · intro j other different found
      rcases getElem?_snoc_cases found with earlier | ⟨new, _⟩
      · exact earlier
      · exact (different new).elim
  | @creationRefused id adapter package placement timestampNs reason writes kind ran =>
    have spec := create_spec id adapter package placement timestampNs fleet.registry.writes
    rw [Ensures, ran] at spec
    exact chained.silent rfl (grown_eq spec) rfl fun i own found => ⟨own, found, rfl⟩
  | logged extension =>
    exact chained.silent rfl (grown_eq extension) rfl fun i own found => ⟨own, found, rfl⟩
  | meddled =>
    have tags : meddled.tags = List.replicate 0 none := rfl
    exact chained.silent tags rfl rfl fun i own found => ⟨own, found, rfl⟩
  | @adapted i own adapter foundOwn kind =>
    have tags : (adapted i).tags = List.replicate 0 none := rfl
    refine chained.silent tags rfl length_set fun j other found => ?_
    rcases getElem?_set_cases found with ⟨rfl, rfl⟩ | ⟨_, there⟩
    · exact ⟨own, foundOwn, rfl⟩
    · exact ⟨other, there, rfl⟩
  | @called i own outcome scene call foundOwn ran =>
    obtain ⟨⟨appended, spanned⟩, _⟩ := called_spanned (proceeds own foundOwn) ran
    have extension : fleet.registry.writes <+: scene.registry.writes :=
      spanned.writes ▸ prefix_append _ _
    obtain ⟨below, _⟩ := List.getElem?_eq_some_iff.mp foundOwn
    apply chained.spoken rfl (grown_eq extension) (length_set.symm.le)
    · rw [length_set]
      exact below
    · intro other found
      rw [getElem?_set_here foundOwn] at found
      obtain rfl := Option.some.inj found
      refine ⟨own.ranges, chained.spanning i own foundOwn, ?_⟩
      rw [← grown_eq extension]
      exact spanned.ranges
    · intro j other different found
      rcases getElem?_set_cases found with ⟨same, _⟩ | ⟨_, there⟩
      · exact (different same).elim
      · exact there

end Chained

section Runs

variable {start final : Fleet} {history : List FleetEvent}

theorem Chained.ofRun (fresh : start.instances = [])
    (run : Run (Guarded (Step sha256 fun _ => True) (Proceeds sha256)) start history final) :
    Chained start.registry.writes history final := by
  induction run with
  | nil =>
    constructor
    · rw [tagsOf, flatMap_nil, append_nil, length_replicate]
    · intro i own found
      rw [fresh, List.getElem?_nil] at found
      cases found
    · intro number i tagged
      rw [tagsOf, flatMap_nil, append_nil, List.getElem?_replicate] at tagged
      split at tagged <;> cases tagged
  | snoc _ step ih => exact ih.step step

theorem writes_step {here next : Fleet} {event : FleetEvent}
    (step : Guarded (Step sha256 fun _ => True) (Proceeds sha256) here event next) :
    here.registry.writes <+: next.registry.writes := by
  obtain ⟨step, proceeds⟩ := step
  cases step with
  | @created id adapter package placement timestampNs own writes kind ran =>
    have spec := create_spec id adapter package placement timestampNs here.registry.writes
    rw [Ensures, ran] at spec
    exact spec.2.2
  | @creationRefused id adapter package placement timestampNs reason writes kind ran =>
    have spec := create_spec id adapter package placement timestampNs here.registry.writes
    rw [Ensures, ran] at spec
    exact spec
  | logged extension => exact extension
  | meddled => exact prefix_rfl
  | adapted found kind => exact prefix_rfl
  | called found ran =>
    obtain ⟨⟨appended, spanned⟩, _⟩ := Chained.called_spanned (proceeds _ found) ran
    exact spanned.writes ▸ prefix_append _ _

theorem writes_run
    (run : Run (Guarded (Step sha256 fun _ => True) (Proceeds sha256)) start history final) :
    start.registry.writes <+: final.registry.writes := by
  induction run with
  | nil => exact prefix_rfl
  | snoc _ step ih => exact ih.trans (writes_step step)

theorem refusal_recorded (fresh : start.instances = []) {first rest : List FleetEvent} {i : Nat}
    {call : LifecycleCall} {reason : LaunchError} {appended : Nat}
    (run : Run (Guarded (Step sha256 fun _ => True) (Proceeds sha256)) start
      (first ++ .called i call (.error reason) appended :: rest) final) :
    ∃ record : WitnessRecord, record.actionKind = ActionKind.proofRejected.asU8 ∧
      final.registry.writes[(tagsOf start.registry.writes first).length]? =
        some (.append record) ∧
      (tagsOf start.registry.writes (first ++ .called i call (.error reason) appended :: rest))[
        (tagsOf start.registry.writes first).length]? = some (some i) := by
  obtain ⟨here, next, earlier, step, later⟩ := run.split_at
  have chained := Chained.ofRun fresh earlier
  obtain ⟨step, proceeds⟩ := step
  generalize eventIs : called i call (.error reason) appended = event at step
  cases step with
  | @called _ own outcome scene _ found ran =>
    cases eventIs
    obtain ⟨_, refused⟩ := Chained.called_spanned (proceeds own found) ran
    obtain ⟨record, spanned, kind⟩ := refused reason rfl
    have one : grown here.registry.writes scene.registry.writes = 1 := by
      rw [grown, spanned.writes, length_append]
      exact Nat.add_sub_cancel_left _ _
    refine ⟨record, kind, ?_, ?_⟩
    · obtain ⟨more, writes⟩ := writes_run later
      rw [← writes]
      show (scene.registry.writes ++ more)[_]? = _
      rw [spanned.writes, ← chained.length, append_assoc,
        List.getElem?_append_right le_rfl, Nat.sub_self]
      rfl
    · rw [tagsOf_append, List.getElem?_append_right le_rfl, Nat.sub_self, tags, one]
      rfl
  | _ => cases eventIs

end Runs

section Claims

variable {start final : Fleet} {history : List FleetEvent} {N : Nat} {hasher : ChainHasher}

theorem Instance.witness_selected {writes : List WitnessCall} (own : Instance)
    (fits : writes.length ≤ N) (small : N < 18446744073709551616) :
    own.witness N (WitnessLog.new.run N hasher writes) =
      (WitnessLog.new.produced N hasher writes).filter fun record =>
        inSpans own.ranges record.sequence := by
  have numbered : Numbered WitnessRecord.sequence (WitnessLog.new.produced N hasher writes) :=
    fun _ _ stored => produced_sequence (by omega) stored
  have sorted := numbered.pairwise.imp fun before => decide_eq_true (Nat.le_of_lt before)
  show List.mergeSort (List.filter _ _) _ = _
  rw [get_produced fits small]
  exact mergeSort_of_pairwise (sorted.filter _)

structure Chain (N : Nat) (hasher : ChainHasher) (writes : List WitnessCall)
    (tags : List (Option Nat)) (i : Nat) (own : Instance) : Prop where
  selected : own.witness N (WitnessLog.new.run N hasher writes) =
    (WitnessLog.new.produced N hasher writes).filter fun record =>
      inSpans own.ranges record.sequence
  owned : own.witness N (WitnessLog.new.run N hasher writes) =
    ownedBy i (WitnessLog.new.produced N hasher writes) tags
  increasing : (own.witness N (WitnessLog.new.run N hasher writes)).Pairwise
    fun left right => left.sequence < right.sequence

theorem chain_of_run (fresh : start.instances = [])
    (run : Run (Guarded (Step sha256 fun _ => True) (Proceeds sha256)) start history final)
    (fits : final.registry.writes.length ≤ N) (small : N < 18446744073709551616) {i : Nat}
    {own : Instance} (found : final.instances[i]? = some own) :
    Chain N hasher final.registry.writes (tagsOf start.registry.writes history) i own := by
  have chained := Chained.ofRun fresh run
  have numbered : Numbered WitnessRecord.sequence
      (WitnessLog.new.produced N hasher final.registry.writes) :=
    fun _ _ stored => produced_sequence (by omega) stored
  have length : (WitnessLog.new.produced N hasher final.registry.writes).length =
      (tagsOf start.registry.writes history).length :=
    (produced_length _).trans chained.length
  have selected := @Instance.witness_selected N hasher _ own fits small
  refine ⟨selected, ?_, ?_⟩
  · exact selected.trans (filter_inSpans numbered length (chained.spanning i own found))
  · rw [selected]
    exact numbered.pairwise.filter _

/-- Over every run in which only its guards refuse calls, the chain of an instance is the records
of its own operations, with a refusal for every refused call. -/
theorem chainsCompleteAndDisjoint (fresh : start.instances = [])
    (run : Run (Guarded (Step sha256 fun _ => True) (Proceeds sha256)) start history final)
    (fits : final.registry.writes.length ≤ N) (small : N < 18446744073709551616) :
    (∀ (i : Nat) own, final.instances[i]? = some own →
      own.witness N (WitnessLog.new.run N hasher final.registry.writes) =
          ownedBy i (WitnessLog.new.produced N hasher final.registry.writes)
            (tagsOf start.registry.writes history) ∧
        (own.witness N (WitnessLog.new.run N hasher final.registry.writes)).Pairwise
          fun left right => left.sequence < right.sequence) ∧
      (∀ (i j : Nat) own other, final.instances[i]? = some own →
        final.instances[j]? = some other → i ≠ j →
        ∀ record ∈ own.witness N (WitnessLog.new.run N hasher final.registry.writes),
          record ∉ other.witness N (WitnessLog.new.run N hasher final.registry.writes)) ∧
      ∀ first (i : Nat) call reason appended rest own,
        history = first ++ .called i call (.error reason) appended :: rest →
        final.instances[i]? = some own →
        ∃ record ∈ own.witness N (WitnessLog.new.run N hasher final.registry.writes),
          record.actionKind = ActionKind.proofRejected.asU8 ∧
            record.sequence = (tagsOf start.registry.writes first).length := by
  have chained := Chained.ofRun fresh run
  have chains := fun {i : Nat} {own : Instance} (found : final.instances[i]? = some own) =>
    @chain_of_run sha256 start final history N hasher fresh run fits small i own found
  refine ⟨fun i own found => ⟨(chains found).owned, (chains found).increasing⟩, ?_, ?_⟩
  · intro i j own other found foundOther different record member
    rw [(chains found).selected] at member
    rw [(chains foundOther).selected]
    intro shared
    exact (chained.spanning i own found).disjoint (chained.spanning j other foundOther) different
      (List.mem_filter.mp member).2 (List.mem_filter.mp shared).2
  · intro first i call reason appended rest own split found
    rw [split] at run
    obtain ⟨record, kind, written, tagged⟩ := refusal_recorded fresh run
    obtain ⟨stored, at', storedKind⟩ := WitnessLog.produced_kind written
    have number := WitnessLog.produced_sequence (by omega) at'
    refine ⟨stored, ?_, storedKind.trans kind, number⟩
    rw [(chains found).selected, List.mem_filter]
    refine ⟨List.mem_of_getElem? at', (chained.spanning i own found _).mpr ?_⟩
    rw [number, split]
    exact tagged

end Claims

def flatHasher : ChainHasher := ⟨fun _ _ => 0, fun hash => hash⟩

set_option maxRecDepth 8000 in
/-- The operations of two instances alternate; the second is suspended before it is started. -/
theorem interleaved :
    ∃ history refused final, Run (Guarded (Step (fun _ => Octets.zero 32) fun _ => True)
        (Proceeds fun _ => Octets.zero 32)) (Fleet.new 2 [])
        (history ++ .called 1 (.suspend 4) (.error (.illegalTransition .created .suspend)) refused ::
          []) final ∧
      final.registry.writes.length = 12 ∧ final.instances.length = 2 := by
  refine ⟨_, _, _, (((Run.nil.snoc
    ⟨@Step.created _ _ _ 1 lenientAdapter (samplePackage 0) ⟨⟨1⟩, 0, 16⟩ 1 _ _ trivial rfl,
      trivial⟩).snoc
    ⟨@Step.created _ _ _ 2 lenientAdapter (samplePackage 1) ⟨⟨2⟩, 0, 16⟩ 2 _ _ trivial rfl,
      trivial⟩).snoc
    ⟨@Step.called _ _ _ 0 _ _ _ (.start wasmHeader 3) rfl rfl, ?_⟩).snoc
    ⟨@Step.called _ _ _ 1 _ _ _ (.suspend 4) rfl rfl, ?_⟩, rfl, rfl⟩
  · intro own found legal
    obtain rfl := Option.some.inj found
    cases legal
  · intro own found _ _
    obtain rfl := Option.some.inj found
    exact Or.inl rfl

theorem chainsCompleteAndDisjoint_interleaved :
    ∃ (final : Fleet) (own other : Instance), final.instances[0]? = some own ∧
      final.instances[1]? = some other ∧
      (∀ record ∈ own.witness 16 (WitnessLog.new.run 16 flatHasher final.registry.writes),
        record ∉ other.witness 16 (WitnessLog.new.run 16 flatHasher final.registry.writes)) ∧
      ∃ record ∈ other.witness 16 (WitnessLog.new.run 16 flatHasher final.registry.writes),
        record.actionKind = ActionKind.proofRejected.asU8 := by
  obtain ⟨history, refused, final, run, written, two⟩ := interleaved
  have own := @List.getElem?_eq_getElem _ final.instances 0 (by omega)
  have other := @List.getElem?_eq_getElem _ final.instances 1 (by omega)
  obtain ⟨_, disjoint, refusals⟩ :=
    @chainsCompleteAndDisjoint _ _ _ _ 16 flatHasher rfl run (by omega) (by omega)
  obtain ⟨record, member, kind, _⟩ := refusals _ 1 _ _ _ _ _ rfl other
  exact ⟨final, _, _, own, other, disjoint 0 1 _ _ own other (by decide), record, member, kind⟩

def tightAdapter : HostAdapter :=
  (⟨4, .portable, fun _ => false, fun _ => true⟩ : AdapterTraits).provided fun _ => .ok ()

set_option maxRecDepth 8000 in
theorem refused_by_adapter :
    ∃ history final, Run (Step (fun _ => Octets.zero 32) fun _ => True) (Fleet.new 1 []) history
        final ∧
      final.instances.map (·.ranges) = [[(0, 4)]] ∧ final.registry.writes.length = 5 ∧
      (tagsOf [] history)[4]? = some (some 0) := by
  exact ⟨_, _, (Run.nil.snoc (@Step.created _ _ _ 1 tightAdapter (samplePackage 0) ⟨⟨1⟩, 0, 16⟩ 1
    _ _ trivial rfl)).snoc (@Step.called _ _ _ 0 _ _ _ (.start wasmHeader 2) rfl rfl), rfl, rfl, rfl⟩

theorem refusal_outside_chain :
    ¬∀ sha256 start history final N hasher, start.instances = [] →
      Run (Step sha256 fun _ => True) start history final → final.registry.writes.length ≤ N →
      N < 18446744073709551616 → ∀ (i : Nat) own, final.instances[i]? = some own →
        own.witness N (WitnessLog.new.run N hasher final.registry.writes) =
          ownedBy i (WitnessLog.new.produced N hasher final.registry.writes)
            (tagsOf start.registry.writes history) := by
  intro claim
  obtain ⟨history, final, run, ranges, written, tagged⟩ := refused_by_adapter
  obtain ⟨own, only, ownRanges⟩ : ∃ own, final.instances = [own] ∧ own.ranges = [(0, 4)] := by
    obtain ⟨own, only, ownRanges⟩ := List.map_eq_singleton_iff.mp ranges
    exact ⟨own, only, ownRanges⟩
  have chain := claim _ _ _ _ 16 flatHasher rfl run (by omega) (by omega) 0 own (by rw [only]; rfl)
  -- The fifth record is the adapter's refusal.
  have length : (WitnessLog.new.produced 16 flatHasher final.registry.writes).length = 5 :=
    (WitnessLog.produced_length _).trans written
  have at' := List.getElem?_eq_getElem
    (l := WitnessLog.new.produced 16 flatHasher final.registry.writes) (i := 4) (by omega)
  have member := mem_ownedBy at' tagged
  rw [Fleet.new] at chain
  rw [← chain, own.witness_selected (by omega) (by omega), List.mem_filter, ownRanges,
    WitnessLog.produced_sequence (by omega) at'] at member
  cases member.2

end Rvm.Launch
