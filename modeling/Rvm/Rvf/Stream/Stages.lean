import Rvm.Foundation.BitField
import Rvm.Foundation.Worklist
import Rvm.Rvf.Stream.ChunkGeometry

/-!
Owns the plan of an accepted table: whether its stages have a cycle, the tiling of the body
and an order of the entries that can be delivered.
-/

namespace Rvm.Rvf

open Foundation Foundation.Call List

/-! ### The requirements of the stages -/

/-- The mask of a stage names another. -/
def StageNeeds (req : Nat → Nat) (s t : Fin maxStages) : Prop := (req s).testBit t = true

def Marked (done : Nat) (s : Fin maxStages) : Prop := done.testBit s = true

instance (done : Nat) : DecidablePred (Marked done) := fun s =>
  inferInstanceAs (Decidable (done.testBit s = true))

/-- The marked stages, each marked after the stages that it needs. -/
structure Ordered (req : Nat → Nat) (done : Nat) : Prop where
  word : done < 2 ^ maxStages
  founded : ∀ s, Marked done s → Acc (Function.swap (StageNeeds req)) s

section Passes

variable {req : Nat → Nat} {done start : Nat} {s : Fin maxStages}

theorem met_iff (word : done < 2 ^ maxStages) :
    req s &&& (4294967295 ^^^ done) = 0 ↔ (∀ t, StageNeeds req s t → Marked done t) := by
  have mask : 4294967295 = 2 ^ maxStages - 1 := rfl
  rw [mask, Nat.eq_iff_testBit_eq]
  simp only [Nat.testBit_and, Nat.testBit_xor, Nat.testBit_two_pow_sub_one, Nat.zero_testBit,
    Bool.and_eq_false_imp]
  constructor
  · intro clear t needs
    have := clear t needs
    simpa [t.isLt, Marked] using this
  · intro met i needs
    by_cases inside : i < maxStages
    · have marked : done.testBit i = true := met ⟨i, inside⟩ needs
      simp [inside, marked]
    · have wide : done < 2 ^ i := word.trans_le (Nat.pow_le_pow_right (by decide) (by omega))
      simp [inside, Nat.testBit_lt_two_pow wide]

theorem marked_lor {t : Fin maxStages} : Marked (done ||| 1 <<< s.val) t ↔ Marked done t ∨ s = t := by
  rw [Marked, testBit_lor_bit, Bool.or_eq_true, beq_iff_eq, Fin.val_inj]
  rfl

theorem Ordered.mark (ordered : Ordered req done) (met : ∀ t, StageNeeds req s t → Marked done t) :
    Ordered req (done ||| 1 <<< s.val) where
  word := Nat.or_lt_two_pow ordered.word (by
    rw [Nat.one_shiftLeft]
    exact Nat.pow_lt_pow_right (by decide) s.isLt)
  founded t marked := by
    rcases marked_lor.mp marked with earlier | rfl
    · exact ordered.founded t earlier
    · exact .intro s fun needed needs => ordered.founded needed (met needed needs)

/-- What a pass did once it has looked at some stages: either nothing, and none of them is
ready, or it marked one more. -/
structure Swept (req : Nat → Nat) (start : Nat) (seen : List Nat) (pass : Nat × Bool) : Prop where
  ordered : Ordered req pass.1
  kept : ∀ s, Marked start s → Marked pass.1 s
  idle : pass.2 = false → pass.1 = start ∧ ∀ s : Fin maxStages, s.val ∈ seen →
    (∀ t, StageNeeds req s t → Marked start t) → Marked start s
  moved : pass.2 = true → ∃ s, ¬Marked start s ∧ Marked pass.1 s

theorem acyclicPass_swept (ordered : Ordered req start) :
    Swept req start (range maxStages) (acyclicPass req start) := by
  suffices sweep : ∀ stages, (∀ s ∈ stages, s < maxStages) → Swept req start stages
      (stages.foldl (fun pass s =>
        if pass.1 &&& (1 <<< s) = 0 ∧ req s &&& (4294967295 ^^^ pass.1) = 0 then
          (pass.1 ||| (1 <<< s), true)
        else pass) (start, false)) from sweep _ fun _ => mem_range.mp
  intro stages inside
  induction stages using reverseRecOn with
  | nil => exact ⟨ordered, fun _ => id, fun _ => ⟨rfl, fun _ => nofun⟩, nofun⟩
  | append_singleton seen s ih =>
    have swept := ih fun other member => inside other (mem_append_left _ member)
    have below : s < maxStages := inside s (mem_append_right _ mem_cons_self)
    rw [foldl_append, foldl_cons, foldl_nil]
    generalize seen.foldl _ (start, false) = pass at swept ⊢
    have met := @met_iff req pass.1 ⟨s, below⟩ swept.ordered.word
    split
    · rename_i ready
      have fresh : ¬Marked pass.1 ⟨s, below⟩ := fun marked =>
        land_bit_ne_zero.mpr marked ready.1
      have marks {t} := @marked_lor pass.1 ⟨s, below⟩ t
      refine ⟨swept.ordered.mark (met.mp ready.2), fun t marked =>
        marks.mpr (.inl (swept.kept t marked)), nofun, fun _ => ⟨⟨s, below⟩, ?_, marks.mpr (.inr rfl)⟩⟩
      exact fun marked => fresh (swept.kept _ marked)
    · rename_i unready
      refine ⟨swept.ordered, swept.kept, fun idle => ?_, swept.moved⟩
      obtain ⟨same, none⟩ := swept.idle idle
      refine ⟨same, fun t member ready => ?_⟩
      rcases mem_append.mp member with earlier | last
      · exact none t earlier ready
      · obtain rfl : t = ⟨s, below⟩ := Fin.ext (mem_singleton.mp last)
        by_contra unmarked
        rw [← same] at unmarked ready
        exact unready ⟨not_not.mp fun set => unmarked (land_bit_ne_zero.mp set), met.mpr ready⟩

def unmarked (done : Nat) : Finset (Fin maxStages) := {s | ¬Marked done s}

theorem acyclicPasses_spec {passes : Nat} (ordered : Ordered req done)
    (enough : (unmarked done).card ≤ passes) :
    Ordered req (acyclicPasses req passes done) ∧ ∀ s,
      (∀ t, StageNeeds req s t → Marked (acyclicPasses req passes done) t) →
        Marked (acyclicPasses req passes done) s := by
  induction passes generalizing done with
  | zero =>
    refine ⟨ordered, fun s _ => by_contra fun fresh => ?_⟩
    have none := Finset.card_eq_zero.mp (Nat.le_zero.mp enough)
    exact Finset.notMem_empty s (none ▸ Finset.mem_filter.mpr ⟨Finset.mem_univ s, fresh⟩)
  | succ passes ih =>
    have swept := acyclicPass_swept ordered
    rw [acyclicPasses]
    split
    · rename_i moved
      obtain ⟨s, fresh, marked⟩ := swept.moved moved
      apply ih swept.ordered
      have fewer : unmarked (acyclicPass req done).1 ⊂ unmarked done := by
        refine Finset.ssubset_iff_of_subset (fun t member => ?_) |>.mpr ⟨s, ?_, ?_⟩
        · exact Finset.mem_filter.mpr ⟨Finset.mem_univ t, fun marked =>
            (Finset.mem_filter.mp member).2 (swept.kept t marked)⟩
        · exact Finset.mem_filter.mpr ⟨Finset.mem_univ s, fresh⟩
        · exact fun member => (Finset.mem_filter.mp member).2 marked
      have less := Finset.card_lt_card fewer
      omega
    · rename_i idle
      obtain ⟨same, none⟩ := swept.idle (Bool.eq_false_of_not_eq_true idle)
      rw [same]
      exact ⟨ordered, fun s ready => none s (mem_range.mpr s.isLt) ready⟩

theorem stagesAcyclic_founded :
    stagesAcyclic req = true ↔ WellFounded (Function.swap (StageNeeds req)) := by
  obtain ⟨ordered, closed⟩ := @acyclicPasses_spec req 0 maxStages
    ⟨by decide, fun s marked => by simp [Marked] at marked⟩ (Finset.card_le_univ _)
  rw [← Descent.done_all_iff ordered.founded closed, stagesAcyclic, beq_iff_eq]
  constructor
  · intro all s
    rw [all]
    exact (Nat.testBit_two_pow_sub_one 32 s).trans (decide_eq_true s.isLt)
  · intro all
    apply Nat.eq_of_testBit_eq
    intro i
    have mask : 4294967295 = 2 ^ maxStages - 1 := rfl
    rw [mask, Nat.testBit_two_pow_sub_one]
    by_cases inside : i < maxStages
    · exact (all ⟨i, inside⟩).trans (decide_eq_true inside).symm
    · have wide := ordered.word.trans_le (Nat.pow_le_pow_right (by decide) (Nat.not_lt.mp inside))
      rw [Nat.testBit_lt_two_pow wide, decide_eq_false inside]

/-- The search for an order of the stages finds one exactly where none needs itself, directly
or through others. -/
theorem stagesAcyclic_iff (req : Nat → Nat) :
    stagesAcyclic req = true ↔ ∀ s, ¬Relation.TransGen (StageNeeds req) s s :=
  stagesAcyclic_founded.trans Descent.founded_iff_acyclic

end Passes

/-! ### The plan of an accepted table -/

/-- An entry of one stage waits for another. -/
def EntriesNeed (entries : List StreamEntry) (s t : Fin maxStages) : Prop :=
  ∃ e ∈ entries, e.stage = s ∧ e.requiresMask.testBit t = true

/-- What the walk adds up agrees with the entries. -/
structure Tallied (policy : StreamPolicy) (scan : TableScan) : Prop where
  needs : ∀ s t, (scan.unionReq s).testBit t = true ↔
    ∃ e ∈ scan.entries, e.stage = s ∧ e.requiresMask.testBit t = true
  total : ∀ sizeClass, scan.classTotal sizeClass =
    storedTotal (scan.entries.filter fun e => segmentClass e.segType = sizeClass)
  budget : ∀ sizeClass, scan.classTotal sizeClass ≤ policy.size.budgetFor sizeClass

theorem tallied_empty (policy : StreamPolicy) : Tallied policy TableScan.empty where
  needs := by simp [TableScan.empty]
  total _ := rfl
  budget _ := Nat.zero_le _

theorem Tallied.round {h : StreamHeader} {policy : StreamPolicy} {scan : TableScan}
    {row : Nat × List UInt8} (tallied : Tallied policy scan) (width : row.2.length = entrySize) :
    (scanRow h policy row).Ensures scan (fun _ next => Tallied policy next) fun _ _ => True := by
  unfold scanRow
  rw [ensures_bind]
  apply (fromBytes_spec width).mono _ fun _ _ _ => trivial
  rintro e _ rfl
  simp only [ensures_bind, ensures_get, ensures_throwIf, ensures_orThrow, ensures_orPanic,
    ensures_set, implies_true, true_and, and_true, not_or, not_lt, ge_iff_le, not_le]
  rintro _ _ _ ⟨inside, _⟩ _ _ n _ _ total added affordable expectOff _
  refine ⟨e.stage, if_pos inside, ?_, ?_, ?_⟩
  · intro s t
    by_cases here : s = e.stage
    · subst here
      simp [tallied.needs, or_and_right, exists_or]
    · simp [here, tallied.needs, or_and_right, exists_or, Ne.symm here]
  · intro sizeClass
    rw [filter_append, storedTotal_append, ← tallied.total]
    by_cases here : sizeClass = segmentClass e.segType
    · subst here
      simp [checkedAdd64_eq added]
    · simp [here, Ne.symm here]
  · intro sizeClass
    by_cases here : sizeClass = segmentClass e.segType
    · subst here
      simpa using affordable
    · simpa [here] using tallied.budget sizeClass

/-- What an accepted table promises: entries and chunks cut the body up within the budgets, and
can be ordered so that none waits for a later one. -/
structure VerifiedDescriptor.Plan (policy : StreamPolicy) (d : VerifiedDescriptor) : Prop where
  tiling : EndToEnd 0 (d.entries.map fun e => ⟨e.bodyOffset, e.bodyOffset + e.storedLen⟩)
    d.header.bodyLen
  chunks : EndToEnd 0 (d.entries.flatMap (StreamEntry.chunkSpans d.header)) d.header.bodyLen
  found : ∀ segId i, d.find segId = some i ↔ ∃ e, d.entries[i]? = some e ∧ e.segId = segId
  budget : ∀ sizeClass, storedTotal (d.entries.filter fun e => segmentClass e.segType = sizeClass) ≤
    policy.size.budgetFor sizeClass
  acyclic : ∀ s, ¬Relation.TransGen (EntriesNeed d.entries) s s
  order : ∃ order : List StreamEntry, order.Perm d.entries ∧
    order.Pairwise fun first second => first.requiresMask.testBit second.stage = false

namespace VerifiedDescriptor

variable {d : VerifiedDescriptor}

theorem Valid.find_iff (valid : d.Valid) {segId i : Nat} :
    d.find segId = some i ↔ ∃ e, d.entries[i]? = some e ∧ e.segId = segId := by
  refine ⟨valid.found, ?_⟩
  rintro ⟨e, entry, rfl⟩
  have listed : (e.segId, i) ∈ d.index := by
    rw [valid.index]
    exact (mem_insertionSort _).mpr
      (mem_map.mpr ⟨(e, i), mem_zipIdx_iff_getElem?.mpr entry, rfl⟩)
  cases located : d.find e.segId with
  | none =>
    have absent := find?_eq_none.mp (Option.map_eq_none_iff.mp located) _ listed
    exact absurd (beq_self_eq_true e.segId) absent
  | some j =>
    obtain ⟨other, also, same⟩ := valid.found located
    obtain rfl := valid.unique (mem_of_getElem? also) (mem_of_getElem? entry) same
    rw [(getElem?_inj (List.getElem?_eq_some_iff.mp also).1 valid.distinct.of_map).mp
      (also.trans entry.symm)]

end VerifiedDescriptor

theorem parseTable_tallied {σ : Type} {table : List UInt8} {h : StreamHeader}
    {policy : StreamPolicy} (state : σ) :
    (parseTable table h policy).Ensures state
      (fun result _ => ∃ scan : TableScan, result.1 = scan.entries ∧ Tallied policy scan ∧
        stagesAcyclic scan.unionReq = true) fun _ _ => True := by
  unfold parseTable
  simp only [ensures_bind, ensures_throwIf, ensures_within, ensures_pure, ensures_get,
    implies_true, true_and]
  intro _ _
  have walk := @ensures_forM StreamError TableScan _ TableScan.empty (fun _ _ => True)
    (scanRow h policy) (chunksExact entrySize table) (fun _ scan => Tallied policy scan)
    (tallied_empty policy)
    (fun visited row rest here split tallied => tallied.round
      (chunksExact_width (split ▸ mem_append_right _ mem_cons_self)))
  apply walk.mono _ fun _ _ _ => trivial
  intro _ scan tallied _ _ accepted
  exact ⟨scan, rfl, tallied, by simpa using accepted⟩

theorem Tallied.plan {policy : StreamPolicy} {scan : TableScan} {d : VerifiedDescriptor}
    (tallied : Tallied policy scan) (valid : d.Valid) (entries : d.entries = scan.entries)
    (accepted : stagesAcyclic scan.unionReq = true) : d.Plan policy where
  tiling := by
    rw [← flatMap_pure_eq_map]
    exact valid.endToEnd fun e _ => ⟨rfl, Nat.le_add_right _ _, rfl⟩
  chunks := valid.endToEnd fun e member => (valid.fits e member).chunkSpans_endToEnd valid.header
  found _ _ := valid.find_iff
  budget sizeClass := by
    rw [entries, ← tallied.total]
    exact tallied.budget sizeClass
  acyclic s cycle := by
    refine Descent.founded_iff_acyclic.mp (stagesAcyclic_founded.mp accepted) s
      (cycle.lift id fun _ _ waits => (tallied.needs _ _).mpr ?_)
    rwa [EntriesNeed, entries] at waits
  order := by
    have : NeZero maxStages := ⟨by decide⟩
    obtain ⟨order, same, ordered⟩ := Descent.exists_order (stagesAcyclic_founded.mp accepted)
      (fun e : StreamEntry => Fin.ofNat maxStages e.stage) d.entries
    refine ⟨order, same, ordered.imp_of_mem fun {first second} firstIn secondIn apart => ?_⟩
    have slot {e : StreamEntry} (member : e ∈ order) : e.stage % maxStages = e.stage :=
      Nat.mod_eq_of_lt (valid.fits e (same.mem_iff.mp member)).stage
    refine Bool.eq_false_of_not_eq_true fun waits => apart ((tallied.needs _ _).mpr ?_)
    refine ⟨first, entries ▸ same.mem_iff.mp firstIn, (slot firstIn).symm, ?_⟩
    exact (congrArg _ (slot secondIn)).trans waits

/-- Every table that is accepted comes with its plan. -/
theorem decodeDescriptor_plan {σ : Type} (primitives : Primitives) (bytes : List UInt8)
    (policy : StreamPolicy) (state : σ) :
    (decodeDescriptor primitives bytes policy).Ensures state
      (fun d _ => d.Plan policy) fun _ _ => True := by
  rw [decodeDescriptor_eq, ensures_bind]
  apply (decodeFront_spec (StreamHeader.parse_spec bytes state)).mono _ fun _ _ _ => trivial
  rintro front _ ⟨rfl, parsed, cleared⟩
  unfold decodeTable
  rw [ensures_bind]
  apply ((parseTable_spec cleared.rows_length parsed).both (parseTable_tallied _)).mono _
    fun _ _ _ => trivial
  rintro table _ ⟨⟨rfl, valid⟩, scan, same, tallied, accepted⟩
  exact tallied.plan (valid _ _) same accepted

end Rvm.Rvf
