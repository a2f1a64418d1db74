import Rvm.Wasm.Framing
import Rvm.Wasm.StreamingWalk

/-!
Owns when streaming validation does not depend on how the module is cut. Between pushes the
validator stands where the walk of the whole module comes by; a cut is harmful where the item
that it falls into stalls.
-/

namespace Rvm.Wasm

open Foundation Foundation.Call Relation Place List Core

variable {w : Wasmparser}

/-! ### Pushes -/

/-- What is buffered is short of what the parser asked for, which the buffer may hold and the
item does not exceed. -/
structure Waits (v : StreamingModuleValidator w) (rest : List UInt8) : Prop where
  short : v.buf.length < v.needLen
  needLen_le : v.needLen ≤ v.core.bufferLimit.1
  lacks : ∀ item, Place.item (v.core, v.buf ++ rest) = some item → v.needLen ≤ item.size

/-- The validator stands where the parse of the whole module comes by, with the bytes after it
buffered or still to come. -/
structure Tracks (policy : ModulePolicy) (module : List UInt8) (cuts : List Nat)
    (v : StreamingModuleValidator w) (rest : List UInt8) : Prop where
  unfailed : v.failed = none
  comes : Comes cuts (.first w policy module) v.core (v.buf ++ rest)
  waits : v.buf ≠ [] → Waits v rest

namespace StreamingModuleValidator

variable {policy : ModulePolicy} {module : List UInt8} {cuts : List Nat}
  {v : StreamingModuleValidator w} {input rest : List UInt8}

@[simp]
theorem ensures_checkWait {remaining need : Nat}
    {Returned : Unit → StreamingModuleValidator w → Prop}
    {Refused : ModuleError → StreamingModuleValidator w → Prop} :
    (checkWait remaining need).Ensures v Returned Refused ↔
      (v.core.refusedWait remaining need = none → Returned () v) ∧
        ∀ limit, v.core.refusedWait remaining need = some limit →
          Refused (.limitExceeded limit) v := by
  simp only [checkWait, ensures_bind, ensures_get]
  cases v.core.refusedWait remaining need with
  | none => simp
  | some limit => simp

theorem waits_of_asked (contract : w.Incremental) {need : Nat} {parser : w.Parser}
    (short : v.buf.length < u64Max) (nonempty : v.buf ≠ [])
    (asked : w.parse v.core.parser v.buf false = .ok (.needMoreData parser need))
    (allowed : v.core.refusedWait v.buf.length need = none)
    (needed : v.needLen = saturatingAdd64 v.buf.length need) : Waits v rest := by
  have positive := (contract.asked asked).2.1
  constructor
  · rw [needed, saturatingAdd64]
    omega
  · rw [needed]
    exact refusedWait_none allowed
  · intro item found
    rw [needed]
    exact saturatingAdd64_le (asked_le contract asked nonempty found)

theorem pushDirect_spec (contract : w.Incremental) (small : module.length < u64Max)
    (tracks : Tracks policy module cuts v (input ++ rest)) (empty : v.buf = [])
    (uncut : ∀ cut ∈ cuts, cut ≤ v.core.consumedTotal ∨
      v.core.consumedTotal + input.length ≤ cut)
    (ahead : rest ≠ [] → v.core.consumedTotal + input.length ∈ cuts) :
    (pushDirect input).Ensures v
      (fun _ next => Tracks policy module cuts next rest ∧ next.received = v.received)
      fun reason _ => Fault w policy module cuts reason := by
  have came := tracks.comes
  rw [empty, nil_append] at came
  have position := (came.within contract small.le).position
  simp only [length_append] at position
  obtain ⟨parser, alike, walked⟩ := came
  simp only [pushDirect, onCore, run, ensures_bind, ensures_onPart]
  apply (runFrom_spec contract cuts rest (input.length + 2) 0 { v.core with parser := parser }
    (Nat.zero_le _) (by omega) uncut (by show v.core.consumedTotal + _ ≤ _; omega) alike.symm).mono
  · rintro run next ⟨_, _, inside, comes, asked⟩
    have comes : Comes cuts (.first w policy module) next (input.drop run.consumed ++ rest) :=
      comes.after walked
    rw [ensures_orPanic]
    refine ⟨input.drop run.consumed, by rw [sliceAt_eq inside le_rfl, take_length], ?_⟩
    rw [ensures_ite]
    constructor
    · intro drained
      rw [drained, nil_append] at comes
      refine ⟨⟨tracks.unfailed, ?_, fun more => absurd empty more⟩, rfl⟩
      show Comes cuts _ next (v.buf ++ rest)
      rwa [empty]
    · intro more
      have there := (comes.within contract small.le).position
      simp only [length_append] at there
      have left : 0 < (input.drop run.consumed).length := length_pos_iff.mpr more
      simp only [ensures_bind, ensures_checkWait, ensures_modify]
      constructor
      · intro allowed
        refine ⟨⟨tracks.unfailed, comes, fun _ => ?_⟩, trivial⟩
        exact waits_of_asked contract (by show (input.drop run.consumed).length < _; omega) more
          asked allowed rfl
      · intro limit refused
        apply fault_of_refusedWait contract small.le comes more asked refused
        intro cut
        exact ⟨_, ahead cut, by omega, by omega⟩
  · rintro reason _ ⟨place, walk, refuses⟩
    exact fault_of_walksTo contract small.le ⟨place, walked.trans walk, refuses⟩

theorem fine_of_fits {core : Core w} {tail : List UInt8} {item : Item w}
    (found : Place.item (core, tail) = some item) (fits : item.size ≤ core.bufferLimit.1)
    (allowed : ∀ after parser need, core.taken item = some (.ok false, after) →
      w.parse item.parser [] false = .ok (.needMoreData parser need) →
      (after.advance item.size).refusedWait 0 need = none) :
    Fine cuts ((core, tail) : Place w) := by
  rintro _ same _ (large | ⟨after, parser, need, taken, asked, refused⟩)
  · obtain rfl := Option.some.inj (found.symm.trans same)
    exact absurd large (Nat.not_lt.mpr fits)
  · obtain rfl := Option.some.inj (found.symm.trans same)
    exact refused (allowed after parser need taken asked)

theorem runBuffered_spec (contract : w.Incremental) (small : module.length < u64Max)
    {core : Core w} {buf : List UInt8} (nonempty : buf ≠ [])
    (comes : Comes cuts (.first w policy module) core (buf ++ rest))
    (fits : buf.length ≤ core.bufferLimit.1)
    (lacks : ∀ item, Place.item (core, buf ++ rest) = some item → buf.length ≤ item.size)
    (cut : ∃ cut ∈ cuts, core.consumedTotal < cut ∧ cut < core.consumedTotal + buf.length) :
    (run buf false).Ensures core
      (fun run next => run.consumed ≤ buf.length ∧
        w.parse next.parser (buf.drop run.consumed) false =
          .ok (.needMoreData next.parser run.need) ∧
        (next.refusedWait (buf.drop run.consumed).length run.need = none →
          Comes cuts (.first w policy module) next (buf.drop run.consumed ++ rest)) ∧
        (buf.drop run.consumed ≠ [] → next.consumedTotal = core.consumedTotal ∧ run.consumed = 0) ∧
        ∀ limit, next.refusedWait (buf.drop run.consumed).length run.need = some limit →
          Fault w policy module cuts (.limitExceeded limit))
      fun reason _ => Fault w policy module cuts reason := by
  have slice : sliceAt buf 0 buf.length = some buf := by
    rw [sliceAt_eq (Nat.zero_le _) le_rfl, take_length, drop_zero]
  rw [Core.run, Core.runFrom]
  simp only [ensures_bind, ensures_get, ensures_orPanic]
  refine ⟨_, slice, ?_⟩
  have position := (comes.within contract small.le).position
  obtain ⟨other, alike, walked⟩ := id comes
  cases parsed : w.parse core.parser buf false with
  | error e =>
    obtain ⟨_, failed⟩ := contract.failed parsed rest
    have none := (item_alike _ alike).trans (item_none_of_error failed)
    exact fault_of_walksTo contract small.le ⟨_, walked, fine_of_none none, .inl ⟨none, rfl⟩⟩
  | ok chunk =>
    cases chunk with
    | needMoreData parser need =>
      have same := (contract.asked parsed).1
      refine ⟨Nat.zero_le _, by rw [same]; exact parsed, fun _ => ⟨other, alike.trans same.symm, walked⟩,
        fun _ => ⟨rfl, rfl⟩, ?_⟩
      intro limit refused
      apply fault_of_refusedWait contract small.le comes nonempty parsed refused
      obtain ⟨inner, member, above, below⟩ := cut
      exact fun _ => ⟨inner, member, above, below.le⟩
    | parsed parser size payload =>
      obtain ⟨_, inside, whole⟩ := contract.parsed parsed
      have here : Place.item (core, buf ++ rest) = some ⟨parser, size, payload⟩ :=
        item_eq.mpr (whole rest)
      obtain rfl : size = buf.length := Nat.le_antisymm inside (lacks _ here)
      have found := (item_alike _ alike).trans here
      have more : buf ++ rest ≠ [] := fun empty =>
        nonempty (append_eq_nil_iff.mp empty).1
      simp only [length_append] at position
      simp only [ensures_converted_ok, ensures_bind, ensures_set, ensures_modify]
      apply (handle_item contract here more (by show _ + buf.length ≤ _; omega)).mono
      · rintro _ after ⟨rfl, taken, sameParser, _⟩
        simp only [Bool.false_eq_true, if_false, Nat.zero_add]
        have step : Moves ({ core with parser := other }, buf ++ rest)
            (after.advance buf.length, rest) := ⟨_, after, found, taken, by rw [drop_left]⟩
        apply (runFrom_drained contract buf.length (after.advance buf.length)).mono
        · rintro run next ⟨same, asksAlike, consumed, asked⟩
          rw [consumed, drop_length]
          refine ⟨le_rfl, by rw [asksAlike]; exact asked, fun allowed => ?_, fun left => absurd rfl left,
            fun limit refused => ?_⟩
          · refine ⟨_, asksAlike.symm, ?_⟩
            rw [same] at allowed ⊢
            refine walked.tail ⟨step, fine_of_fits found fits ?_⟩
            intro later other need takenHere askedHere
            cases taken.symm.trans takenHere
            rw [← sameParser] at askedHere
            cases asked.symm.trans askedHere
            exact allowed
          · refine .inl ⟨(refusedWait_some refused).1, fun _ => ?_⟩
            rw [sameParser] at asked
            have waits : (after.advance buf.length).refusedWait 0 run.need ≠ none := by
              rw [same] at refused
              rw [show (after.advance buf.length).refusedWait 0 run.need = _ from refused]
              simp
            exact ⟨_, _, walked.reaches, found, cut, .inr ⟨after, _, _, taken, asked, waits⟩⟩
        · rintro reason _ ⟨plain, ⟨e, failed⟩, none⟩
          apply fault_of_walksTo contract small.le
          refine ⟨_, walked.tail ⟨step, fine_of_fits found fits ?_⟩, fine_of_none (none rest),
            .inl ⟨none rest, plain⟩⟩
          intro later other need _ asked
          rw [← sameParser, failed] at asked
          cases asked
      · intro reason after taken
        apply fault_of_walksTo contract small.le
        refine ⟨_, walked, fine_of_fits found fits ?_, .inr ⟨_, after, found, taken⟩⟩
        intro later other need takenHere
        cases taken.symm.trans takenHere

theorem pushBuffered_spec (contract : w.Incremental) (small : module.length < u64Max)
    (tracks : Tracks policy module cuts v (input ++ rest)) (buffered : v.buf ≠ [])
    (nonempty : input ≠ [])
    (cut : ∃ cut ∈ cuts, v.core.consumedTotal < cut ∧
      cut ≤ v.core.consumedTotal + v.buf.length) :
    (pushBuffered input).Ensures v
      (fun _ next => Tracks policy module cuts next (input.drop (v.takeLen input) ++ rest) ∧
        next.received = v.received ∧ (next.buf ≠ [] →
          ∃ cut ∈ cuts, next.core.consumedTotal < cut ∧
            cut ≤ next.core.consumedTotal + next.buf.length))
      fun reason _ => Fault w policy module cuts reason := by
  obtain ⟨short, needLen_le, lacks⟩ := tracks.waits buffered
  have takes : 0 < (input.take (v.takeLen input)).length := by
    have := length_pos_iff.mpr nonempty
    rw [length_take, takeLen]
    omega
  have no_longer : (v.buf ++ input.take (v.takeLen input)).length ≤ v.needLen := by
    rw [length_append, length_take, takeLen]
    omega
  have joined : v.buf ++ (input ++ rest) =
      v.buf ++ input.take (v.takeLen input) ++ (input.drop (v.takeLen input) ++ rest) := by
    simp only [append_assoc, ← append_assoc (input.take _), take_append_drop]
  have came := tracks.comes
  rw [joined] at came lacks
  obtain ⟨inner, member, above, below⟩ := cut
  have longer : v.buf.length < (v.buf ++ input.take (v.takeLen input)).length := by
    rw [length_append]
    omega
  simp only [pushBuffered, ensures_bind, ensures_get, ensures_set, ensures_ite]
  generalize v.buf ++ input.take (v.takeLen input) = buf at *
  generalize input.drop (v.takeLen input) ++ rest = rest at *
  constructor
  · intro still
    refine ⟨⟨tracks.unfailed, came, fun _ => ⟨still, needLen_le, lacks⟩⟩, rfl, fun _ => ?_⟩
    exact ⟨inner, member, above, below.trans (Nat.add_le_add_left longer.le _)⟩
  · intro enough
    have full : v.needLen = buf.length := Nat.le_antisymm (Nat.not_lt.mp enough) no_longer
    rw [full] at needLen_le lacks
    have filled : buf ≠ [] := length_pos_iff.mp (Nat.lt_of_le_of_lt (Nat.zero_le _) longer)
    simp only [onCore, ensures_onPart]
    apply (runBuffered_spec contract small filled came needLen_le lacks
      ⟨inner, member, above, by omega⟩).weaken
    rintro run next ⟨inside, asked, comes, same, refused⟩
    rw [ensures_orPanic]
    refine ⟨buf.drop run.consumed, by rw [sliceAt_eq inside le_rfl, take_length], ?_⟩
    simp only [ensures_modify, ensures_checkWait]
    refine ⟨fun allowed => ⟨⟨tracks.unfailed, comes allowed, fun more => ?_⟩, trivial,
      fun more => ?_⟩, fun limit found => refused limit found⟩
    · have position := (came.within contract small.le).position
      simp only [length_append] at position
      apply waits_of_asked contract _ more asked allowed rfl
      show (buf.drop run.consumed).length < _
      rw [length_drop]
      omega
    · obtain ⟨same, consumed⟩ := same more
      show ∃ cut ∈ cuts, next.consumedTotal < cut ∧
        cut ≤ next.consumedTotal + (buf.drop run.consumed).length
      rw [same, consumed, drop_zero]
      exact ⟨inner, member, above, by omega⟩

variable {begins : Nat} {pieces : List (List UInt8)}

theorem pushRounds_spec (contract : w.Incremental) (small : module.length < u64Max)
    {ends rounds : Nat} (enough : input.length ≤ rounds)
    (tracks : Tracks policy module cuts v (input ++ rest))
    (endsAt : ends + rest.length = module.length) (beginsBefore : begins + input.length ≤ ends)
    (uncut : ∀ cut ∈ cuts, cut ≤ begins ∨ ends ≤ cut) (ahead : rest ≠ [] → ends ∈ cuts)
    (cut : v.buf ≠ [] → input ≠ [] → ∃ cut ∈ cuts, v.core.consumedTotal < cut ∧
      cut ≤ v.core.consumedTotal + v.buf.length) :
    (pushRounds rounds input).Ensures v
      (fun _ next => Tracks policy module cuts next rest ∧ next.received = v.received)
      fun reason _ => Fault w policy module cuts reason := by
  induction rounds generalizing v input with
  | zero =>
    obtain rfl := length_eq_zero_iff.mp (Nat.le_zero.mp enough)
    exact ⟨tracks, rfl⟩
  | succ rounds ih =>
    cases input with
    | nil => exact ⟨tracks, rfl⟩
    | cons byte input =>
      have position := (tracks.comes.within contract small.le).position
      simp only [length_append] at position
      simp only [pushRounds, ensures_bind, ensures_get, ensures_ite]
      constructor
      · intro empty
        rw [empty, length_nil] at position
        have here : v.core.consumedTotal + (byte :: input).length = ends := by omega
        apply pushDirect_spec contract small tracks empty
        · intro inner member
          have := uncut inner member
          omega
        · rwa [here]
      · intro buffered
        apply (pushBuffered_spec contract small tracks buffered (by simp)
          (cut buffered (by simp))).weaken
        rintro _ next ⟨later, received, cutLater⟩
        have dropped := length_drop (i := v.takeLen (byte :: input)) (l := byte :: input)
        have takes : 0 < v.takeLen (byte :: input) := by
          rw [takeLen, length_cons]
          omega
        rw [length_cons] at dropped enough beginsBefore
        apply (ih (by omega) later (by omega)
          fun more _ => cutLater more).weaken
        exact fun _ _ done => ⟨done.1, done.2.trans received⟩

/-! ### Whole deliveries -/

def Bounded (policy : ModulePolicy) (v : StreamingModuleValidator w) : Prop :=
  v.buf.length ≤ max policy.maxSectionBytes policy.maxFunctionBodyBytes + headerSlack

def Stands (policy : ModulePolicy) (module : List UInt8) (cuts : List Nat)
    (v : StreamingModuleValidator w) (rest : List UInt8) : Prop :=
  (Tracks policy module cuts v rest ∧ v.received + rest.length = module.length ∧
      v.received ≤ policy.maxModuleBytes) ∨
    ∃ reason, v.failed = some reason ∧ v.buf = [] ∧ Fault w policy module cuts reason

theorem Stands.bounded (contract : w.Incremental) (small : module.length < u64Max)
    (stands : Stands policy module cuts v rest) : Bounded policy v := by
  rcases stands with ⟨tracks, _⟩ | ⟨_, _, empty, _⟩
  · by_cases empty : v.buf = []
    · simp [Bounded, empty]
    · have waits := tracks.waits empty
      have within := tracks.comes.within contract small.le
      have limit := v.core.bufferLimit_le
      rw [show v.core.policy = policy from within.policy] at limit
      exact waits.short.le.trans (waits.needLen_le.trans limit)
  · simp [Bounded, empty]

theorem push_spec (contract : w.Incremental) (small : module.length < u64Max)
    (stands : Stands policy module cuts v (input ++ rest))
    (beginsAt : begins + (input ++ rest).length = module.length) (begun : begins ∈ cuts)
    (uncut : ∀ cut ∈ cuts, cut ≤ begins ∨ begins + input.length ≤ cut)
    (ahead : rest ≠ [] → begins + input.length ∈ cuts) :
    (push input).Ensures v (fun _ next => Stands policy module cuts next rest)
      fun _ next => Stands policy module cuts next rest := by
  rw [push, ensures_bind, ensures_get]
  rcases stands with ⟨tracks, received, allowed⟩ | ⟨reason, failed, empty, fault⟩
  · rw [tracks.unfailed]
    rw [length_append] at received beginsAt
    have within := tracks.comes.within contract small.le
    have position := within.position
    simp only [length_append] at position
    have total : saturatingAdd64 v.received input.length = v.received + input.length :=
      Nat.min_eq_left (by omega)
    have samePolicy : v.core.policy = policy := within.policy
    have inner : (pushInner input).Ensures v
        (fun _ next => Tracks policy module cuts next rest ∧
          next.received + rest.length = module.length ∧ next.received ≤ policy.maxModuleBytes)
        fun reason _ => Fault w policy module cuts reason := by
      simp only [pushInner, ensures_bind, ensures_get, ensures_throwIf, ensures_set]
      rw [total, samePolicy]
      constructor
      · intro large
        refine .inl ⟨rfl, fun sizes => absurd sizes.fits ?_⟩
        omega
      · intro fits
        have noted : Tracks policy module cuts
            { v with received := v.received + input.length } (input ++ rest) :=
          ⟨tracks.unfailed, tracks.comes, fun more =>
            ⟨(tracks.waits more).short, (tracks.waits more).needLen_le, (tracks.waits more).lacks⟩⟩
        apply (pushRounds_spec contract small le_rfl noted (by omega) le_rfl uncut ahead _).weaken
        · rintro _ next ⟨later, same⟩
          have same : next.received = v.received + input.length := same
          exact ⟨later, by omega, by omega⟩
        · intro buffered _
          have := length_pos_iff.mpr buffered
          simp only at this
          exact ⟨begins, begun, by show v.core.consumedTotal < _; omega,
            by show _ ≤ v.core.consumedTotal + v.buf.length; omega⟩
    rw [ensures_bind, ensures_attempt]
    apply inner.mono
    · exact fun _ next stands => .inl stands
    · exact fun reason next fault => .inr ⟨reason, rfl, rfl, fault⟩
  · rw [failed]
    exact .inr ⟨reason, failed, empty, fault⟩

/-- Where the pieces of a module begin, the first at a given position. -/
def boundaries : Nat → List (List UInt8) → List Nat
  | _, [] => []
  | begins, piece :: rest => begins :: boundaries (begins + piece.length) rest

theorem le_of_mem_boundaries {cut : Nat} (member : cut ∈ boundaries begins pieces) :
    begins ≤ cut := by
  induction pieces generalizing begins with
  | nil => cases member
  | cons piece rest ih =>
    rcases mem_cons.mp member with rfl | later
    · exact le_rfl
    · exact (Nat.le_add_right _ _).trans (ih later)

theorem pushAll_spec (contract : w.Incremental) (small : module.length < u64Max)
    (beginsAt : begins + pieces.flatten.length = module.length)
    (stands : Stands policy module cuts v pieces.flatten)
    (known : ∀ cut ∈ cuts, cut ≤ begins ∨ cut ∈ boundaries begins pieces)
    (among : ∀ cut ∈ boundaries begins pieces, cut ∈ cuts) :
    (pushAll pieces).Ensures v (fun _ next => Stands policy module cuts next [])
      fun _ _ => False := by
  induction pieces generalizing v begins with
  | nil => exact stands
  | cons piece rest ih =>
    show ((do let _ ← attempt (push piece)) >>= fun _ => pushAll rest).Ensures v _ _
    rw [flatten_cons] at stands beginsAt
    have ahead : rest.flatten ≠ [] → begins + piece.length ∈ cuts := by
      intro more
      cases rest with
      | nil => exact absurd rfl more
      | cons _ _ => exact among _ (mem_cons_of_mem _ mem_cons_self)
    have uncut : ∀ cut ∈ cuts, cut ≤ begins ∨ begins + piece.length ≤ cut := by
      intro cut member
      rcases known cut member with before | after
      · exact .inl before
      · rcases mem_cons.mp after with rfl | later
        · exact .inl le_rfl
        · exact .inr (le_of_mem_boundaries later)
    have begun := among begins mem_cons_self
    have pushed := push_spec contract small stands beginsAt begun uncut ahead
    have goesOn : ∀ next : StreamingModuleValidator w,
        Stands policy module cuts next rest.flatten →
        (pushAll rest).Ensures next (fun _ final => Stands policy module cuts final [])
          fun _ _ => False := by
      intro next later
      have nextAt : begins + piece.length + rest.flatten.length = module.length := by
        rw [length_append] at beginsAt
        omega
      apply ih nextAt later
      · intro cut member
        rcases known cut member with before | after
        · exact .inl (before.trans (Nat.le_add_right _ _))
        · rcases mem_cons.mp after with rfl | later
          · exact .inl (Nat.le_add_right _ _)
          · exact .inr later
      · exact fun cut member => among cut (mem_cons_of_mem _ member)
    simp only [ensures_bind, ensures_attempt]
    exact pushed.mono (fun _ => goesOn) fun _ => goesOn

theorem stands_new : Stands policy pieces.flatten cuts (new w policy) pieces.flatten :=
  .inl ⟨⟨rfl, Walks.comes .refl, fun more => absurd rfl more⟩, Nat.zero_add _, Nat.zero_le _⟩

/-- The parse of the whole module comes to its end and accepts it. -/
def Accepts (w : Wasmparser) (policy : ModulePolicy) (module : List UInt8)
    (validated : ValidatedModule) : Prop :=
  ∃ place item after, Reaches (.first w policy module) place ∧ place.2 = [] ∧
    place.item = some item ∧ place.1.taken item = some (.ok true, after) ∧
    validated = ⟨module.length, after.types, after.imports, after.exports,
      after.functionsValidated⟩

theorem not_stalled {place : Place w} (walk : Walks cuts (.first w policy module) place)
    (fine : Fine cuts place) (stuck : ∀ next, ¬ Moves place next) :
    ¬ Stalled w policy module cuts := by
  rintro ⟨other, item, reached, found, cut, stalls⟩
  rcases passed_or_ahead moves_functional walk reached with passed | ahead
  · exact passed item found cut stalls
  · obtain rfl := eq_of_stuck stuck ahead
    exact fine item found cut stalls

theorem stuck_of_taken {place : Place w} {item : Item w} {outcome : Except ModuleError Bool}
    {after : Core w} (found : place.item = some item)
    (taken : place.1.taken item = some (outcome, after)) (stops : outcome ≠ .ok false) :
    ∀ next, ¬ Moves place next := by
  rintro next ⟨other, later, foundHere, takenHere, _⟩
  obtain rfl := Option.some.inj (found.symm.trans foundHere)
  cases taken.symm.trans takenHere
  exact stops rfl

/-- The end of the pushes: the parse of the whole module has come to its end, or it fails. -/
theorem finish_spec (contract : w.Incremental) (small : module.length < u64Max)
    (stands : Stands policy module cuts v []) :
    finish.Ensures v
      (fun validated _ => module.length ≤ policy.maxModuleBytes ∧
        Accepts w policy module validated ∧ ¬ Stalled w policy module cuts)
      fun reason _ => Fault w policy module cuts reason := by
  rw [finish, ensures_bind, ensures_get]
  rcases stands with ⟨tracks, received, allowed⟩ | ⟨reason, failed, _, fault⟩
  · rw [tracks.unfailed]
    have came := tracks.comes
    rw [append_nil] at came
    obtain ⟨other, alike, walked⟩ := came
    rw [length_nil, Nat.add_zero] at received
    have slice : sliceAt v.buf 0 v.buf.length = some v.buf := by
      rw [sliceAt_eq (Nat.zero_le _) le_rfl, take_length, drop_zero]
    have unread : Place.item ({ v.core with parser := other }, v.buf) = none → ∀ reason : ModuleError,
        reason.isSize = false → Fault w policy module cuts reason := fun none reason plain =>
      fault_of_walksTo contract small.le ⟨_, walked, fine_of_none none, .inl ⟨none, plain⟩⟩
    simp only [onCore, Core.run, Core.runFrom, ensures_bind, ensures_onPart, ensures_get]
    rw [ensures_orPanic]
    refine ⟨_, slice, ?_⟩
    rw [← alike]
    cases parsed : w.parse other v.buf true with
    | error e => exact unread (item_none_of_error parsed) _ rfl
    | ok chunk =>
      cases chunk with
      | needMoreData parser need => exact unread (by simp [Place.item, parsed]) _ rfl
      | parsed parser size payload =>
        have found : Place.item ({ v.core with parser := other }, v.buf) =
            some ⟨parser, size, payload⟩ := item_eq.mpr parsed
        obtain ⟨inside, _, atEnd⟩ := contract.whole parsed
        have empty : v.buf = [] := by
          by_contra buffered
          have waits := tracks.waits buffered
          have lacks := waits.lacks _ (by rw [append_nil, ← item_alike _ alike]; exact found)
          have short := waits.short
          simp only at lacks
          omega
        have ended := atEnd.mpr empty
        obtain rfl : size = 0 := by
          rw [empty] at inside
          exact Nat.le_zero.mp inside
        have fine : Fine cuts (({ v.core with parser := other }, v.buf) : Place w) := by
          rintro item same ⟨cut, _, above, below⟩
          obtain rfl := Option.some.inj (found.symm.trans same)
          exact absurd (above.trans below) (Nat.lt_irrefl _)
        simp only [ensures_converted_ok, ensures_bind, ensures_set, ensures_modify]
        apply (handle_spec contract { v.core with parser := parser } payload).traced.mono
        · rintro last after ⟨⟨_, _, ends⟩, taken⟩
          obtain rfl := ends.mpr ended
          simp only [if_true, ensures_pure, ensures_throwIf, Nat.zero_add]
          constructor
          · rintro (impossible | unequal)
            · cases impossible
            · exact absurd (by rw [empty]; rfl) unequal
          · intro _
            refine ⟨received ▸ allowed, ⟨_, _, after, walked.reaches, empty, found, taken, ?_⟩,
              not_stalled walked fine (stuck_of_taken found taken (by simp))⟩
            rw [← received]
            rfl
        · rintro reason after ⟨_, taken⟩
          exact fault_of_walksTo contract small.le
            ⟨_, walked, fine, .inr ⟨_, after, found, taken⟩⟩
  · rw [failed]
    exact fault

theorem verdict_spec (contract : w.Incremental) (pieces : List (List UInt8))
    (small : pieces.flatten.length < u64Max) :
    (∃ validated, verdict w policy pieces = some (.ok validated) ∧
      pieces.flatten.length ≤ policy.maxModuleBytes ∧
      Accepts w policy pieces.flatten validated ∧
      ¬ Stalled w policy pieces.flatten (boundaries 0 pieces)) ∨
    ∃ reason, verdict w policy pieces = some (.error reason) ∧
      Fault w policy pieces.flatten (boundaries 0 pieces) reason := by
  have fresh : Stands policy pieces.flatten (boundaries 0 pieces) (new w policy) pieces.flatten :=
    stands_new
  have pushed := pushAll_spec contract small (Nat.zero_add _) fresh (fun _ member => .inr member)
    fun _ member => member
  have judged : Call.Ensures (do pushAll pieces; finish) (new w policy) _ _ :=
    ensures_bind.mpr (pushed.mono (fun _ _ stands => finish_spec contract small stands) nofun)
  rcases judged.outcome with ⟨validated, next, ran, accepted⟩ | ⟨reason, next, ran, fault⟩
  · exact .inl ⟨validated, by rw [verdict, ran]; rfl, accepted⟩
  · exact .inr ⟨reason, by rw [verdict, ran]; rfl, fault⟩

/-! ### Independence of the cut -/

section Verdicts

variable {validated : ValidatedModule}

theorem Accepts.unique {other : ValidatedModule} (accepts : Accepts w policy module validated)
    (again : Accepts w policy module other) : validated = other := by
  obtain ⟨place, item, after, reached, _, found, taken, rfl⟩ := accepts
  obtain ⟨here, same, later, reachedHere, _, foundHere, takenHere, rfl⟩ := again
  have stuck := stuck_of_taken found taken nofun
  have stuckHere := stuck_of_taken foundHere takenHere nofun
  obtain rfl := eq_of_stuck stuckHere (leads_of_stuck moves_functional stuck reached reachedHere)
  obtain rfl := Option.some.inj (found.symm.trans foundHere)
  cases taken.symm.trans takenHere
  rfl

theorem Accepts.withinSizes (contract : w.Incremental) (small : module.length ≤ u64Max)
    (fits : module.length ≤ policy.maxModuleBytes) (accepts : Accepts w policy module validated) :
    WithinSizes w policy module := by
  refine ⟨fits, fun place reached => ?_⟩
  obtain ⟨final, last, after, ends, _, found, taken, _⟩ := accepts
  have admitted : ∀ {here : Place w} {item : Item w} {ended : Bool} {after : Core w},
      Reaches (.first w policy module) here → here.1.taken item = some (.ok ended, after) →
      policy.Admits item.payload := by
    intro here item ended after reached taken
    have shows := handle_spec contract { here.1 with parser := item.parser } item.payload
    rw [Ensures, show (handle item.payload).runFrom _ = _ from taken] at shows
    exact (within_first.reaches contract small reached).policy ▸ shows.2.1
  have leads := leads_of_stuck moves_functional (stuck_of_taken found taken (by simp)) ends reached
  rcases ReflTransGen.cases_head leads with rfl | ⟨next, ⟨item, after, foundHere, takenHere, _⟩, _⟩
  · exact ⟨last, found, admitted reached taken⟩
  · exact ⟨item, foundHere, admitted reached takenHere⟩

theorem ends_of_fault {reason : ModuleError} (plain : reason.isSize = false)
    (fault : Fault w policy module cuts reason) :
    (∀ validated, ¬ Accepts w policy module validated) ∧ ¬ Stalled w policy module cuts := by
  rcases fault with ⟨size, _⟩ | ⟨_, place, walk, fine, refuses⟩
  · cases plain.symm.trans size
  · have stuck : ∀ next, ¬ Moves place next := by
      rcases refuses with ⟨none, _⟩ | ⟨item, after, found, taken⟩
      · rintro next ⟨item, _, found, _⟩
        cases none.symm.trans found
      · exact stuck_of_taken found taken nofun
    refine ⟨?_, not_stalled walk fine stuck⟩
    rintro _ ⟨final, last, after, ends, _, found, taken, _⟩
    obtain rfl := eq_of_stuck (stuck_of_taken found taken nofun)
      (leads_of_stuck moves_functional stuck walk.reaches ends)
    rcases refuses with ⟨none, _⟩ | ⟨item, later, foundHere, takenHere⟩
    · cases none.symm.trans found
    · obtain rfl := Option.some.inj (found.symm.trans foundHere)
      cases taken.symm.trans takenHere

theorem Accepts.verdict (contract : w.Incremental) {pieces : List (List UInt8)}
    (small : pieces.flatten.length < u64Max) (fits : pieces.flatten.length ≤ policy.maxModuleBytes)
    (accepts : Accepts w policy pieces.flatten validated)
    (unstalled : ¬ Stalled w policy pieces.flatten (boundaries 0 pieces)) :
    verdict w policy pieces = some (.ok validated) := by
  rcases verdict_spec contract pieces small with
    ⟨other, judged, _, again, _⟩ | ⟨reason, judged, fault⟩
  · rw [judged, accepts.unique again]
  · cases size : reason.isSize with
    | false => exact absurd accepts ((ends_of_fault size fault).1 _)
    | true =>
      rcases fault with ⟨_, stalls⟩ | ⟨plain, _⟩
      · exact absurd (stalls (accepts.withinSizes contract small.le fits)) unstalled
      · cases plain.symm.trans size

theorem accepts_of_verdict (contract : w.Incremental) {pieces : List (List UInt8)}
    (small : pieces.flatten.length < u64Max)
    (judged : verdict w policy pieces = some (.ok validated)) :
    pieces.flatten.length ≤ policy.maxModuleBytes ∧ Accepts w policy pieces.flatten validated := by
  rcases verdict_spec contract pieces small with ⟨other, found, fits, accepts, _⟩ | ⟨_, found, _⟩
  · cases found.symm.trans judged
    exact ⟨fits, accepts⟩
  · cases found.symm.trans judged

theorem not_stalled_whole : ¬ Stalled w policy module (boundaries 0 [module]) := by
  rintro ⟨place, item, _, _, ⟨cut, member, above, _⟩, _⟩
  obtain rfl := mem_singleton.mp member
  exact absurd above (Nat.not_lt_zero _)

theorem verdict_whole (contract : w.Incremental) (small : module.length < u64Max) :
    verdict w policy [module] = some (.ok validated) ↔
      module.length ≤ policy.maxModuleBytes ∧ Accepts w policy module validated := by
  have whole : [module].flatten = module := by simp
  constructor
  · intro judged
    have accepts := accepts_of_verdict contract (whole.symm ▸ small) judged
    rwa [whole] at accepts
  · rintro ⟨fits, accepts⟩
    rw [← whole] at small fits accepts
    apply accepts.verdict contract small fits
    rw [whole]
    exact not_stalled_whole

end Verdicts

/-- Validation in pieces gives the verdict on the module in one piece, refuses none for its size
within the sizes, and buffers no more than the policy allows. -/
structure CutIndependent (w : Wasmparser) (policy : ModulePolicy) (pieces : List (List UInt8)) :
    Prop where
  returns : ∃ outcome, verdict w policy pieces = some outcome
  accepts : ∀ validated, verdict w policy pieces = some (.ok validated) ↔
    verdict w policy [pieces.flatten] = some (.ok validated)
  sized : WithinSizes w policy pieces.flatten → ∀ reason,
    verdict w policy pieces = some (.error reason) → reason.isSize = false
  buffered : ∀ count outcome v,
    (pushAll (pieces.take count)).runFrom (new w policy) = some (outcome, v) →
    v.progress.bytesBuffered ≤
      max policy.maxSectionBytes policy.maxFunctionBodyBytes + headerSlack

/-- A module cut into pieces. Joined they are one slice, of at most `isize::MAX` bytes. -/
structure Cutting where
  pieces : List (List UInt8)
  sliced : pieces.flatten.length ≤ 9223372036854775807

theorem bounded_pushAll (contract : w.Incremental) (small : pieces.flatten.length < u64Max)
    {outcome : Except ModuleError Unit}
    (ran : (pushAll pieces).runFrom (new w policy) = some (outcome, v)) : Bounded policy v := by
  have fresh : Stands policy pieces.flatten (boundaries 0 pieces) (new w policy) pieces.flatten :=
    stands_new
  have pushed := pushAll_spec contract small (Nat.zero_add _) fresh (fun _ member => .inr member)
    fun _ member => member
  rw [Ensures, ran] at pushed
  cases outcome with
  | error reason => exact pushed.elim
  | ok _ => exact pushed.bounded contract small

/-- Validation does not depend on how the module is cut exactly where, if the module is within
the sizes, no cut falls into an item that stalls. -/
theorem cutIndependent (w : Wasmparser) (contract : w.Incremental) (policy : ModulePolicy)
    (cutting : Cutting) :
    CutIndependent w policy cutting.pieces ↔
      (WithinSizes w policy cutting.pieces.flatten →
        ¬ Stalled w policy cutting.pieces.flatten (boundaries 0 cutting.pieces)) := by
  obtain ⟨pieces, sliced⟩ := cutting
  have small : pieces.flatten.length < u64Max := Nat.lt_of_le_of_lt sliced (by decide)
  have judged := @verdict_spec w policy contract pieces small
  constructor
  · intro independent sizes stalled
    rcases judged with ⟨_, _, _, _, unstalled⟩ | ⟨reason, judged, fault⟩
    · exact unstalled stalled
    · exact (ends_of_fault (independent.sized sizes reason judged) fault).2 stalled
  · intro unstalled
    constructor
    · rcases judged with ⟨validated, judged, _⟩ | ⟨reason, judged, _⟩
      · exact ⟨_, judged⟩
      · exact ⟨_, judged⟩
    · intro validated
      rw [verdict_whole contract small]
      constructor
      · exact accepts_of_verdict contract small
      · rintro ⟨fits, accepts⟩
        exact accepts.verdict contract small fits
          (unstalled (accepts.withinSizes contract small.le fits))
    · intro sizes reason judgedSo
      rcases judged with ⟨_, judged, _⟩ | ⟨_, judged, ⟨_, stalls⟩ | ⟨plain, _⟩⟩
      · cases judged.symm.trans judgedSo
      · exact absurd (stalls sizes) (unstalled sizes)
      · cases judged.symm.trans judgedSo
        exact plain
    · intro count outcome v ran
      have joined : pieces.flatten.length =
          (pieces.take count).flatten.length + (pieces.drop count).flatten.length := by
        rw [← List.length_append, ← List.flatten_append, List.take_append_drop]
      exact bounded_pushAll contract (Nat.lt_of_le_of_lt (joined ▸ Nat.le_add_right _ _) small) ran

/-! ### Modules without sections -/

/-- The parser's answer on bytes that end inside an item. -/
def endsEarly (data : List UInt8) (needed : Nat) (eof : Bool) :
    Except ReaderError (Chunk Bool Bool) :=
  if eof then .error ⟨data.length, "unexpected end-of-file"⟩
  else .ok (.needMoreData false (needed - data.length))

def parseHeader (data : List UInt8) (eof : Bool) : Except ReaderError (Chunk Bool Bool) :=
  if data.length < 4 then endsEarly data 4 eof
  else if data.take 4 ≠ wasmMagic then .error ⟨0, "magic header not detected"⟩
  else if data.length < 8 then endsEarly data 8 eof
  else if (data.drop 4).take 4 ≠ wasmVersion then .error ⟨4, "unknown binary version"⟩
  else .ok (.parsed true 8 false)

/-- What follows the header where no section does. -/
def parseEnd (data : List UInt8) (eof : Bool) : Except ReaderError (Chunk Bool Bool) :=
  if data ≠ [] then .error ⟨8, "section"⟩
  else if eof then .ok (.parsed true 0 true)
  else .ok (.needMoreData true 1)

def headerOnly : Wasmparser where
  Parser := Bool
  Validator := Unit
  Payload := Bool
  start := false
  fresh := ()
  parse passedHeader data eof := if passedHeader then parseEnd data eof else parseHeader data eof
  kind isEnd := if isEnd then .end else .version .module
  asSection _ := none
  validate _ isEnd := .ok (if isEnd then .end else .ok, ())

section Header

variable {data rest : List UInt8} {next payload : Bool} {size : Nat}

theorem parseHeader_parsed {eof : Bool}
    (parsed : parseHeader data eof = .ok (.parsed next size payload)) :
    8 ≤ data.length ∧ size = 8 ∧ payload = false := by
  unfold parseHeader endsEarly at parsed
  split_ifs at parsed <;> cases parsed
  exact ⟨by omega, rfl, rfl⟩

theorem parseHeader_append (long : 8 ≤ data.length) (eof : Bool) :
    parseHeader (data ++ rest) eof = parseHeader data false := by
  have magic : (data ++ rest).take 4 = data.take 4 := by
    rw [take_append_of_le_length (by omega)]
  have version : ((data ++ rest).drop 4).take 4 = (data.drop 4).take 4 := by
    rw [drop_append_of_le_length (by omega), take_append_of_le_length]
    rw [length_drop]
    omega
  have four : ¬ (data ++ rest).length < 4 ∧ ¬ data.length < 4 := by
    rw [length_append]
    omega
  have eight : ¬ (data ++ rest).length < 8 ∧ ¬ data.length < 8 := by
    rw [length_append]
    omega
  simp only [parseHeader, magic, version, four, eight, if_false]

theorem parseHeader_failed {e : ReaderError} (failed : parseHeader data false = .error e)
    (rest : List UInt8) : ∃ e, parseHeader (data ++ rest) true = .error e := by
  by_cases long : 8 ≤ data.length
  · exact ⟨e, by rw [parseHeader_append long, failed]⟩
  · simp only [parseHeader, endsEarly, Bool.false_eq_true, if_false, not_le.mp long,
      if_true] at failed
    split_ifs at failed with short mismatch
    refine ⟨⟨0, "magic header not detected"⟩, ?_⟩
    have four : ¬ (data ++ rest).length < 4 := by
      rw [length_append]
      omega
    rw [parseHeader, if_neg four, take_append_of_le_length (by omega), if_pos mismatch]

theorem parseHeader_asked {need : Nat}
    (asked : parseHeader data false = .ok (.needMoreData next need)) :
    next = false ∧ 1 ≤ need ∧ need ≤ 8 - data.length ∧ data.length < 8 := by
  simp only [parseHeader, endsEarly, Bool.false_eq_true, if_false] at asked
  split_ifs at asked <;> cases asked <;> refine ⟨rfl, ?_, ?_, ?_⟩ <;> omega

theorem parseEnd_cases {eof : Bool} {outcome : Except ReaderError (Chunk Bool Bool)}
    (answered : parseEnd data eof = outcome) :
    (data ≠ [] ∧ outcome = .error ⟨8, "section"⟩) ∨ data = [] ∧
      outcome = if eof then .ok (.parsed true 0 true) else .ok (.needMoreData true 1) := by
  subst answered
  cases data with
  | nil => exact .inr ⟨rfl, rfl⟩
  | cons byte rest => exact .inl ⟨nofun, rfl⟩

theorem headerOnly_incremental : headerOnly.Incremental where
  parsed := by
    intro passedHeader data next size payload parsed
    cases passedHeader with
    | true =>
      rcases parseEnd_cases parsed with ⟨_, failed⟩ | ⟨_, asked⟩
      · cases failed
      · cases asked
    | false =>
      obtain ⟨long, rfl, rfl⟩ := parseHeader_parsed parsed
      exact ⟨by decide, long, fun rest => (parseHeader_append long true).trans parsed⟩
  asked := by
    intro passedHeader data next need asked
    cases passedHeader with
    | true =>
      rcases parseEnd_cases asked with ⟨_, failed⟩ | ⟨_, same⟩
      · cases failed
      · cases same
        refine ⟨rfl, Nat.le_refl 1, fun rest after size payload parsed => ?_⟩
        rcases parseEnd_cases parsed with ⟨_, failed⟩ | ⟨empty, _⟩
        · cases failed
        · exact ⟨Nat.le_max_left _ _, .inr empty⟩
    | false =>
      obtain ⟨rfl, positive, le, short⟩ := parseHeader_asked asked
      refine ⟨rfl, positive, fun rest after size payload parsed => ?_⟩
      obtain ⟨_, rfl, _⟩ := parseHeader_parsed parsed
      exact ⟨Nat.le_trans le (Nat.le_max_right _ _), .inl short⟩
  failed := by
    intro passedHeader data e failed rest
    cases passedHeader with
    | true =>
      rcases parseEnd_cases failed with ⟨more, _⟩ | ⟨_, asked⟩
      · exact ⟨_, if_pos fun empty => more (append_eq_nil_iff.mp empty).1⟩
      · cases asked
    | false => exact parseHeader_failed failed rest
  whole := by
    intro passedHeader data next size payload parsed
    cases passedHeader with
    | true =>
      rcases parseEnd_cases parsed with ⟨_, failed⟩ | ⟨rfl, same⟩
      · cases failed
      · cases same
        exact ⟨Nat.le_refl 0, fun more => absurd rfl more, fun _ => rfl, fun _ => rfl⟩
    | false =>
      obtain ⟨long, rfl, rfl⟩ := parseHeader_parsed parsed
      refine ⟨long, fun _ => by decide, nofun, ?_⟩
      rintro rfl
      exact absurd long (by decide)
  ended := by
    intro _ isEnd answer next answered
    cases answered
    cases isEnd <;> simp [headerOnly]

end Header

/-- The policy that allows the header and nothing more. -/
def headerSized : ModulePolicy := { ModulePolicy.default with maxModuleBytes := 8 }

def headerCut : Cutting := ⟨[[0x00, 0x61, 0x73], [0x6D, 0x01], [0x00, 0x00, 0x00]], by decide⟩

/-- Where the parse of a bare header stands after it. -/
def afterHeader : Place headerOnly :=
  (({ Core.new headerOnly .default with parser := true } : Core headerOnly).advance 8, [])

theorem cutIndependent_headerCut : CutIndependent headerOnly .default headerCut.pieces := by
  apply (cutIndependent headerOnly headerOnly_incremental .default headerCut).mpr
  rintro _ ⟨place, item, reached, found, ⟨cut, _, above, below⟩, stalls⟩
  have header : Place.item (first headerOnly .default headerCut.pieces.flatten) =
    some ⟨true, 8, false⟩ := rfl
  have taken : (first headerOnly .default headerCut.pieces.flatten).1.taken ⟨true, 8, false⟩ =
    some (.ok false, { Core.new headerOnly .default with parser := true }) := rfl
  rcases ReflTransGen.cases_head reached with rfl | ⟨next, ⟨other, after, same, went, rfl⟩, later⟩
  · obtain rfl := Option.some.inj (header.symm.trans found)
    rcases stalls with large | ⟨after, parser, need, went, asked, refused⟩
    · exact absurd large (by decide)
    · cases taken.symm.trans went
      cases asked
      exact refused rfl
  · obtain rfl := Option.some.inj (header.symm.trans same)
    cases taken.symm.trans went
    have last : Place.item afterHeader = some ⟨true, 0, true⟩ := rfl
    obtain rfl : place = afterHeader := eq_of_stuck (stuck_of_taken last rfl nofun) later
    obtain rfl := Option.some.inj (last.symm.trans found)
    exact absurd (above.trans below) (Nat.lt_irrefl _)

def headerHalves : List (List UInt8) := [[0x00, 0x61, 0x73, 0x6D], [0x01, 0x00, 0x00, 0x00]]

/-- The header cut in two is refused under a policy that allows just its eight bytes. -/
theorem cutIndependent_fails :
    headerOnly.Incremental ∧ ¬ CutIndependent headerOnly headerSized headerHalves := by
  refine ⟨headerOnly_incremental, fun independent => ?_⟩
  have accepted := (independent.accepts ⟨8, 0, 0, 0, 0⟩).mpr rfl
  have refused : verdict headerOnly headerSized headerHalves =
    some (.error (.limitExceeded .moduleBytes)) := by decide +kernel
  cases refused.symm.trans accepted

end StreamingModuleValidator

end Rvm.Wasm
