import Rvm.Foundation.Run
import Rvm.Wasm.Streaming

/-!
Owns the parse of a whole module as a walk of places, one item after the other: the run of
the parser over a prefix, the cuts that fall into an item, and what a refusal shows.
-/

namespace Rvm.Wasm

open Foundation Foundation.Call Relation List

/-! ### Sizes -/

/-- The limits on how many bytes something has. -/
def Limit.isSize : Limit → Bool
  | .moduleBytes | .sectionBytes | .functionBodyBytes => true
  | _ => false

def ModuleError.isSize : ModuleError → Bool
  | .limitExceeded limit => limit.isSize
  | _ => false

variable {w : Wasmparser}

def ModulePolicy.AdmitsBody (policy : ModulePolicy) (kind : PayloadKind) : Prop :=
  ∀ rangeLen locals, kind = .codeSectionEntry rangeLen locals →
    rangeLen ≤ policy.maxFunctionBodyBytes

structure ModulePolicy.Admits (policy : ModulePolicy) (payload : w.Payload) : Prop where
  within : ∀ id len, w.asSection payload = some (id, len) → id ≠ 10 →
    len ≤ policy.maxSectionBytes
  body : policy.AdmitsBody (w.kind payload)

namespace Core

/-- What handling a payload leaves alone. -/
structure Kept (before after : Core w) : Prop where
  policy : after.policy = before.policy
  parser : after.parser = before.parser
  consumedTotal : after.consumedTotal = before.consumedTotal

theorem Kept.refl (core : Core w) : Kept core core := ⟨rfl, rfl, rfl⟩

theorem Kept.trans {first second third : Core w} (before : Kept first second)
    (after : Kept second third) : Kept first third :=
  ⟨after.policy.trans before.policy, after.parser.trans before.parser,
    after.consumedTotal.trans before.consumedTotal⟩

/-- A call that may change counters only and is not refused for a size. -/
def Plain {α : Type} (call : CoreCall w α) : Prop :=
  ∀ core, call.Ensures core (fun _ next => Kept core next) fun reason _ => reason.isSize = false

section Plain

variable {α β : Type} {call : CoreCall w α} {limit : Limit} {core : Core w}

theorem Plain.pure (value : α) : Plain (Pure.pure value : CoreCall w α) :=
  fun core => ensures_pure.mpr (.refl core)

theorem Plain.bind {next : α → CoreCall w β} (first : Plain call)
    (later : ∀ value, Plain (next value)) : Plain (call >>= next) := by
  intro core
  rw [ensures_bind]
  apply (first core).weaken
  intro value middle kept
  exact (later value middle).weaken fun _ _ later => kept.trans later

theorem Plain.get : Plain (MonadState.get : CoreCall w (Core w)) := fun core => Kept.refl core

theorem Plain.throwIf {condition : Prop} [Decidable condition] {reason : ModuleError}
    (plain : reason.isSize = false) : Plain (Call.throwIf condition reason : CoreCall w Unit) :=
  fun core => ensures_throwIf.mpr ⟨fun _ => plain, fun _ => .refl core⟩

theorem Plain.converted (result : Except ReaderError α) : Plain (w := w) (converted result) := by
  intro core
  cases result with
  | ok value => exact Kept.refl core
  | error e => exact rfl

theorem Plain.overLimit (count max : Nat) (plain : limit.isSize = false) :
    Plain (w := w) (overLimit count max limit) := .throwIf plain

theorem Plain.forM {items : List α} {body : α → CoreCall w PUnit}
    (each : ∀ item, Plain (body item)) : Plain (items.forM body) := by
  induction items with
  | nil => exact .pure PUnit.unit
  | cons item rest ih => exact .bind (each item) fun _ => ih

theorem Plain.foldlM {items : List α} {body : β → α → CoreCall w β}
    (each : ∀ value item, Plain (body value item)) (value : β) :
    Plain (items.foldlM body value) := by
  induction items generalizing value with
  | nil => exact .pure value
  | cons item rest ih =>
    rw [foldlM_cons]
    exact .bind (each value item) ih

theorem Plain.after {changed : Core w} (plain : Plain call) (kept : Kept core changed) :
    call.Ensures changed (fun _ next => Kept core next) fun reason _ => reason.isSize = false :=
  (plain changed).weaken fun _ _ later => kept.trans later

theorem Plain.checkTable (initial : Nat) : Plain (w := w) (checkTable initial) :=
  .bind .get fun _ => .throwIf rfl

theorem Plain.checkMemory (memory : MemoryType) : Plain (w := w) (checkMemory memory) :=
  .bind .get fun _ => .throwIf rfl

theorem Plain.addLocals (total : Nat) (run : Except ReaderError Nat) :
    Plain (w := w) (addLocals total run) :=
  .bind (.converted run) fun _ => .bind .get fun _ => .bind (.overLimit _ _ rfl) fun _ => .pure _

theorem Plain.kindOf (ty : TypeRef) : Plain (w := w) (kindOf ty) := by
  cases ty with
  | func | funcExact | global | tag => exact .pure _
  | table initial => exact .bind (.checkTable initial) fun _ => .pure _
  | memory memory => exact .bind (.checkMemory memory) fun _ => .pure _

theorem Plain.checkImport (listed : Except ReaderError Import × Nat) :
    Plain (w := w) (checkImport listed) :=
  .bind (.converted _) fun _ => .bind (.kindOf _) fun _ => .bind .get fun _ => .throwIf rfl

theorem Plain.checkContent (kind : PayloadKind) : Plain (w := w) (checkContent kind) := by
  cases kind with
  | importSection count imports =>
    apply Plain.bind (.forM .checkImport)
    exact fun _ core => ensures_modify.mpr ⟨rfl, rfl, rfl⟩
  | memorySection memories =>
    exact .forM fun memory => .bind (.converted memory) .checkMemory
  | _ => exact .pure _

theorem Plain.noBody {call : CoreCall w Unit} {changed : Core w} {kind : PayloadKind}
    (plain : Plain call) (kept : Kept core changed)
    (noBody : ∀ rangeLen locals, kind ≠ .codeSectionEntry rangeLen locals) :
    call.Ensures changed (fun _ next => Kept core next ∧ core.policy.AdmitsBody kind)
      fun reason _ => core.policy.AdmitsBody kind → reason.isSize = false :=
  (plain.after kept).mono
    (fun _ _ later => ⟨later, fun rangeLen locals body => absurd body (noBody rangeLen locals)⟩)
    fun _ _ plainly _ => plainly

theorem precheck_spec (core : Core w) (kind : PayloadKind) :
    (precheck kind).Ensures core (fun _ next => Kept core next ∧ core.policy.AdmitsBody kind)
      fun reason _ => core.policy.AdmitsBody kind → reason.isSize = false := by
  rw [precheck, ensures_bind, ensures_get]
  cases kind with
  | version encoding => exact Plain.noBody (.throwIf rfl) (.refl core) (by simp)
  | typeSection count | importSection count imports | exportSection count | functionSection count =>
    show (set _ >>= fun _ => overLimit _ _ _).Ensures core _ _
    rw [ensures_bind, ensures_set]
    exact Plain.noBody (.overLimit _ _ rfl) ⟨rfl, rfl, rfl⟩ (by simp)
  | globalSection count | dataSection count | elementSection count =>
    exact Plain.noBody (.overLimit _ _ rfl) (.refl core) (by simp)
  | tableSection initials =>
    exact Plain.noBody (.forM fun initial => .bind (.converted initial) .checkTable)
      (.refl core) (by simp)
  | codeSectionStart count =>
    show (overLimit _ _ _ >>= fun _ => set _).Ensures core _ _
    rw [ensures_bind]
    apply (Plain.overLimit _ _ rfl core).mono
    · exact fun _ _ _ => ⟨⟨rfl, rfl, rfl⟩, fun _ _ other => by cases other⟩
    · exact fun _ _ plainly _ => plainly
  | codeSectionEntry rangeLen locals =>
    show (set _ >>= fun _ => throwIf _ _ >>= fun _ => _).Ensures core _ _
    simp only [ensures_bind, ensures_set, ensures_throwIf]
    constructor
    · intro large admits
      exact absurd large (Nat.not_lt.mpr (admits _ _ rfl))
    · intro small
      have admits : core.policy.AdmitsBody (.codeSectionEntry rangeLen locals) := by
        intro _ _ same
        cases same
        exact Nat.not_lt.mp small
      have plain : Plain (w := w) do
          let runs ← converted locals
          let _ ← runs.foldlM addLocals 0
          return () :=
        .bind (.converted locals) fun _ => .bind (.foldlM .addLocals 0) fun _ => .pure ()
      have kept : Kept core { core with codeRemaining := core.codeRemaining - 1 } :=
        ⟨rfl, rfl, rfl⟩
      have shows := (plain.after kept).mono (fun _ _ later => And.intro later admits)
        fun _ _ plainly (_ : core.policy.AdmitsBody (.codeSectionEntry rangeLen locals)) =>
          plainly
      simpa only [ensures_bind] using shows
  | memorySection memories | «end» | other => exact Plain.noBody (.pure ()) (.refl core) (by simp)

theorem checkAnswer_spec (core : Core w) (kind : PayloadKind) (answer : ValidPayload) :
    (checkAnswer kind answer).Ensures core
      (fun ended next => Kept core next ∧ (ended = true ↔ answer = .end))
      fun reason _ => reason.isSize = false := by
  have content : ∀ changed, Kept core changed → (checkContent kind >>= fun _ => pure false).Ensures
      changed (fun ended next => Kept core next ∧ ended = false)
        fun reason _ => reason.isSize = false := by
    intro changed kept
    rw [ensures_bind]
    exact (Plain.after (.checkContent kind) kept).weaken fun _ _ later => ⟨later, rfl⟩
  cases answer with
  | «end» => exact ⟨.refl core, Iff.intro (fun _ => rfl) fun _ => rfl⟩
  | ok | parser =>
    exact (content core (.refl core)).weaken fun _ _ later => ⟨later.1, by simp [later.2]⟩
  | func check =>
    rw [checkAnswer, ensures_bind]
    apply (Plain.converted check core).weaken
    intro _ next kept
    rw [ensures_bind, ensures_modify]
    have counted : Kept core
        { next with functionsValidated := asU32 (next.functionsValidated + 1) } :=
      kept.trans ⟨rfl, rfl, rfl⟩
    exact (content _ counted).weaken fun _ _ later => ⟨later.1, by simp [later.2]⟩

/-- Handling a payload leaves the position alone; it ends at the end only, and is refused for a
size only where a section or a body is too large. -/
theorem handle_spec (contract : w.Incremental) (core : Core w) (payload : w.Payload) :
    (handle payload).Ensures core
      (fun ended next => Kept core next ∧ core.policy.Admits payload ∧
        (ended = true ↔ w.kind payload = .end))
      fun reason _ => core.policy.Admits payload → reason.isSize = false := by
  simp only [handle, checkSection, ensures_bind, ensures_get, ensures_throwIf]
  constructor
  · rintro ⟨⟨id, len⟩, found, notCode, large⟩ admits
    exact absurd large (Nat.not_lt.mpr (admits.within id len found notCode))
  · intro small
    have within : ∀ id len, w.asSection payload = some (id, len) → id ≠ 10 →
        len ≤ core.policy.maxSectionBytes := fun id len found notCode =>
      Nat.not_lt.mp fun large => small ⟨(id, len), found, notCode, large⟩
    apply (precheck_spec core (w.kind payload)).mono
    · rintro _ checked ⟨kept, body⟩
      cases answered : w.validate checked.validator payload with
      | error e => exact fun _ => rfl
      | ok found =>
        have noted : Kept core { checked with validator := found.2 } := kept.trans ⟨rfl, rfl, rfl⟩
        apply (checkAnswer_spec { checked with validator := found.2 } (w.kind payload)
          found.1).mono
        · exact fun _ _ later =>
            ⟨noted.trans later.1, ⟨within, body⟩, later.2.trans (contract.ended answered)⟩
        · exact fun _ _ plainly _ => plainly
    · exact fun _ _ plainly admits => plainly admits.body

end Plain

end Core

/-! ### Places -/

structure Item (w : Wasmparser) where
  parser : w.Parser
  size : Nat
  payload : w.Payload

/-- Where the parse of a whole input stands: the core and the bytes that are left. -/
abbrev Place (w : Wasmparser) := Core w × List UInt8

def Core.taken (core : Core w) (item : Item w) : Option (Except ModuleError Bool × Core w) :=
  (Core.handle item.payload).runFrom { core with parser := item.parser }

namespace Place

def item (place : Place w) : Option (Item w) :=
  match w.parse place.1.parser place.2 true with
  | .ok (.parsed parser size payload) => some ⟨parser, size, payload⟩
  | _ => none

/-- The parse of the whole input goes on by an item. -/
def Moves (here next : Place w) : Prop :=
  ∃ item after, here.item = some item ∧ here.1.taken item = some (.ok false, after) ∧
    next = (after.advance item.size, here.2.drop item.size)

/-- The parse of the whole input leads from one place to another. -/
abbrev Reaches : Place w → Place w → Prop := ReflTransGen Moves

/-- Where the parse of a module starts. -/
def first (w : Wasmparser) (policy : ModulePolicy) (module : List UInt8) : Place w :=
  (.new w policy, module)

theorem item_eq {place : Place w} {found : Item w} :
    place.item = some found ↔ w.parse place.1.parser place.2 true =
      .ok (.parsed found.parser found.size found.payload) := by
  unfold item
  split
  · rename_i parser size payload parsed
    rw [parsed]
    constructor
    · rintro ⟨⟩
      rfl
    · intro same
      cases same
      rfl
  · rename_i other
    constructor
    · rintro ⟨⟩
    · exact fun parsed => absurd parsed (other _ _ _)

theorem moves_functional : Relator.RightUnique (Moves (w := w)) := by
  rintro here _ _ ⟨item, after, found, taken, rfl⟩ ⟨other, later, foundOther, takenOther, rfl⟩
  obtain rfl := Option.some.inj (found.symm.trans foundOther)
  cases taken.symm.trans takenOther
  rfl

/-- A place in the parse of an input under a policy: its core counts what is behind it. -/
structure Within (policy : ModulePolicy) (total : Nat) (place : Place w) : Prop where
  policy : place.1.policy = policy
  position : place.1.consumedTotal + place.2.length = total

variable {policy : ModulePolicy} {total : Nat} {here next place : Place w}

theorem Within.step (contract : w.Incremental) (small : total ≤ u64Max)
    (within : Within policy total here) (step : Moves here next) : Within policy total next := by
  obtain ⟨item, after, found, taken, rfl⟩ := step
  have shows := Core.handle_spec contract { here.1 with parser := item.parser } item.payload
  rw [Ensures, show (Core.handle item.payload).runFrom _ = _ from taken] at shows
  have size := (contract.whole (item_eq.mp found)).1
  have position := within.position
  have behind : after.consumedTotal + item.size ≤ u64Max := by
    rw [shows.1.consumedTotal]
    show here.1.consumedTotal + item.size ≤ u64Max
    omega
  constructor
  · exact shows.1.policy.trans within.policy
  · show asU64 (after.consumedTotal + item.size) + (here.2.drop item.size).length = total
    rw [asU64_of_lt (Nat.lt_succ_of_le behind), shows.1.consumedTotal, length_drop]
    show here.1.consumedTotal + item.size + (here.2.length - item.size) = total
    omega

theorem Within.reaches (contract : w.Incremental) (small : total ≤ u64Max)
    (within : Within policy total here) (reaches : Reaches here place) :
    Within policy total place := by
  induction reaches with
  | refl => exact within
  | tail _ step ih => exact ih.step contract small step

end Place

/-! ### Cuts -/

namespace Place

def CutInside (cuts : List Nat) (place : Place w) (item : Item w) : Prop :=
  ∃ cut ∈ cuts, place.1.consumedTotal < cut ∧ cut < place.1.consumedTotal + item.size

/-- An item that the buffer may not hold, or after which the validator may not wait for what
the parser asks for on no data. -/
def Stalls (place : Place w) (item : Item w) : Prop :=
  place.1.bufferLimit.1 < item.size ∨
    ∃ after parser need, place.1.taken item = some (.ok false, after) ∧
      w.parse item.parser [] false = .ok (.needMoreData parser need) ∧
      (after.advance item.size).refusedWait 0 need ≠ none

def Fine (cuts : List Nat) (place : Place w) : Prop :=
  ∀ item, place.item = some item → CutInside cuts place item → ¬ Stalls place item

/-- The parse of the whole input leads from one place to another, and all that it leaves behind
is fine. -/
abbrev Walks (cuts : List Nat) : Place w → Place w → Prop :=
  ReflTransGen fun here next => Moves here next ∧ Fine cuts here

/-- The parse of the whole input ends at a place with a refusal. -/
def Refuses (place : Place w) (reason : ModuleError) : Prop :=
  (place.item = none ∧ reason.isSize = false) ∨
    ∃ item after, place.item = some item ∧ place.1.taken item = some (.error reason, after)

def WalksTo (cuts : List Nat) (here : Place w) (reason : ModuleError) : Prop :=
  ∃ place, Walks cuts here place ∧ Fine cuts place ∧ Refuses place reason

variable {cuts : List Nat} {here next place : Place w} {reason : ModuleError}

theorem fine_of_none (none : place.item = none) : Fine cuts place :=
  fun _ found => by simp [none] at found

theorem WalksTo.after (step : Moves here next ∧ Fine cuts here) (walk : WalksTo cuts next reason) :
    WalksTo cuts here reason := by
  obtain ⟨place, walk, fine, refuses⟩ := walk
  exact ⟨place, walk.head step, fine, refuses⟩

/-- The parse of the whole input leads to a core, up to a parser that parses alike. -/
def Comes (cuts : List Nat) (here : Place w) (core : Core w) (tail : List UInt8) : Prop :=
  ∃ parser, w.parse parser = w.parse core.parser ∧
    Walks cuts here ({ core with parser := parser }, tail)

theorem Walks.comes {core : Core w} {tail : List UInt8} (walk : Walks cuts here (core, tail)) :
    Comes cuts here core tail := ⟨core.parser, rfl, walk⟩

theorem Comes.after {core : Core w} {tail : List UInt8} (walk : Walks cuts here next)
    (comes : Comes cuts next core tail) : Comes cuts here core tail := by
  obtain ⟨parser, alike, further⟩ := comes
  exact ⟨parser, alike, walk.trans further⟩

theorem item_alike {core : Core w} {parser : w.Parser} (tail : List UInt8)
    (alike : w.parse parser = w.parse core.parser) :
    Place.item ({ core with parser := parser }, tail) = Place.item (core, tail) := by
  simp only [Place.item, alike]

theorem Walks.reaches (walk : Walks cuts here place) : Reaches here place :=
  ReflTransGen.mono (fun _ _ step => step.1) _ _ walk

end Place

namespace Core

open Place

variable {core : Core w} {data rest : List UInt8} {parser again : w.Parser} {need : Nat}

theorem item_none_of_error {e : ReaderError} {tail : List UInt8}
    (failed : w.parse core.parser tail true = .error e) : Place.item (core, tail) = none := by
  simp [Place.item, failed]

@[simp]
theorem ensures_converted_ok {α : Type} {value : α} {Returned : α → Core w → Prop}
    {Refused : ModuleError → Core w → Prop} :
    (converted (.ok value)).Ensures core Returned Refused ↔ Returned value core :=
  Iff.rfl

theorem handle_item (contract : w.Incremental) {tail : List UInt8} {item : Item w}
    (found : Place.item (core, tail) = some item) (more : tail ≠ [])
    (small : core.consumedTotal + item.size ≤ u64Max) :
    (handle item.payload).Ensures { core with parser := item.parser }
      (fun ended after => ended = false ∧ core.taken item = some (.ok false, after) ∧
        (after.advance item.size).parser = item.parser ∧
        (after.advance item.size).consumedTotal = core.consumedTotal + item.size)
      fun reason after => core.taken item = some (.error reason, after) := by
  apply (handle_spec contract { core with parser := item.parser } item.payload).traced.mono
  · rintro ended after ⟨⟨kept, _, ends⟩, ran⟩
    have goesOn : ended = false := by
      rw [← Bool.not_eq_true, ends, (contract.whole (item_eq.mp found)).2.2]
      exact more
    subst goesOn
    refine ⟨rfl, ran, kept.parser, ?_⟩
    show asU64 (after.consumedTotal + item.size) = _
    rw [kept.consumedTotal]
    exact asU64_of_lt (Nat.lt_succ_of_le small)
  · exact fun _ _ refused => refused.2

/-- The run of the parser over a prefix of the input goes on with the parse of the whole input,
as far as the prefix has whole items. -/
theorem runFrom_spec (contract : w.Incremental) (cuts : List Nat) (rest : List UInt8)
    (rounds pos : Nat) (core : Core w) (inside : pos ≤ data.length)
    (enough : data.length < pos + rounds)
    (uncut : ∀ cut ∈ cuts, cut ≤ core.consumedTotal ∨
      core.consumedTotal + (data.length - pos) ≤ cut)
    (small : core.consumedTotal + (data.length - pos) ≤ u64Max)
    (alike : w.parse again = w.parse core.parser) :
    (runFrom data false rounds pos).Ensures { core with parser := again }
      (fun run next => run.ended = false ∧ pos ≤ run.consumed ∧ run.consumed ≤ data.length ∧
        Comes cuts (core, data.drop pos ++ rest) next (data.drop run.consumed ++ rest) ∧
        w.parse next.parser (data.drop run.consumed) false =
          .ok (.needMoreData next.parser run.need))
      fun reason _ => WalksTo cuts (core, data.drop pos ++ rest) reason := by
  induction rounds generalizing pos core again with
  | zero => omega
  | succ rounds ih =>
    have slice : sliceAt data pos data.length = some (data.drop pos) := by
      rw [sliceAt_eq inside (Nat.le_refl _), take_length]
    simp only [runFrom, ensures_bind, ensures_get, ensures_orPanic, alike]
    refine ⟨_, slice, ?_⟩
    cases parsed : w.parse core.parser (data.drop pos) false with
    | error e =>
      obtain ⟨_, failed⟩ := contract.failed parsed rest
      have none := item_none_of_error failed
      exact ⟨_, .refl, fine_of_none none, .inl ⟨none, rfl⟩⟩
    | ok chunk =>
      cases chunk with
      | needMoreData parser need =>
        have same := (contract.asked parsed).1
        exact ⟨rfl, Nat.le_refl _, inside, ⟨core.parser, same.symm, .refl⟩, by rw [same]; exact parsed⟩
      | parsed parser size payload =>
        obtain ⟨positive, fits, whole⟩ := contract.parsed parsed
        have found : Place.item (core, data.drop pos ++ rest) =
            some ⟨parser, size, payload⟩ :=
          item_eq.mpr (whole rest)
        have fine : Fine cuts (core, data.drop pos ++ rest) := by
          rintro item same ⟨cut, member, above, below⟩
          obtain rfl := Option.some.inj (found.symm.trans same)
          have := uncut cut member
          rw [length_drop] at fits
          simp only at above below
          omega
        have more : data.drop pos ++ rest ≠ [] := by
          intro empty
          rw [(append_eq_nil_iff.mp empty).1] at fits
          exact absurd fits (Nat.not_le.mpr positive)
        have dropped : (data.drop pos ++ rest).drop size =
            data.drop (pos + size) ++ rest := by
          rw [drop_append_of_le_length fits, drop_drop]
        rw [length_drop] at fits
        simp only [ensures_converted_ok, ensures_bind, ensures_set, ensures_modify]
        apply (handle_item contract found more (by show _ + size ≤ _; omega)).mono
        · rintro _ after ⟨rfl, taken, _, position⟩
          have step : Moves (core, data.drop pos ++ rest)
              (after.advance size, data.drop (pos + size) ++ rest) :=
            ⟨_, after, found, taken, by rw [dropped]⟩
          have position : (after.advance size).consumedTotal = core.consumedTotal + size :=
            position
          simp only [Bool.false_eq_true, if_false]
          apply (ih (pos + size) (after.advance size) (by omega) (by omega)
            _ (by omega) rfl).mono
          · rintro run next ⟨same, far, inside, comes, asked⟩
            exact ⟨same, by omega, inside, comes.after (.single ⟨step, fine⟩), asked⟩
          · exact fun _ _ walk => walk.after ⟨step, fine⟩
          · intro cut member
            have := uncut cut member
            omega
        · exact fun reason after taken => ⟨_, .refl, fine, .inr ⟨_, after, found, taken⟩⟩

/-- Where the prefix is used up, the parser asks for more or the whole input fails. -/
theorem runFrom_drained (contract : w.Incremental) (rounds : Nat) (core : Core w) :
    (runFrom data false (rounds + 1) data.length).Ensures core
      (fun run next => next = { core with parser := next.parser } ∧
        w.parse next.parser = w.parse core.parser ∧ run.consumed = data.length ∧
        w.parse core.parser [] false = .ok (.needMoreData next.parser run.need))
      fun reason _ => reason.isSize = false ∧ (∃ e, w.parse core.parser [] false = .error e) ∧
        ∀ tail, Place.item (core, tail) = none := by
  have slice : sliceAt data data.length data.length = some [] := by
    rw [sliceAt_eq (Nat.le_refl _) (Nat.le_refl _), take_length, drop_length]
  simp only [runFrom, ensures_bind, ensures_get, ensures_orPanic]
  refine ⟨_, slice, ?_⟩
  cases parsed : w.parse core.parser [] false with
  | error e =>
    refine ⟨rfl, ⟨e, rfl⟩, fun tail => ?_⟩
    obtain ⟨_, failed⟩ := contract.failed parsed tail
    exact item_none_of_error failed
  | ok chunk =>
    cases chunk with
    | needMoreData parser need =>
      exact ⟨rfl, (contract.asked parsed).1, rfl, rfl⟩
    | parsed parser size payload =>
      obtain ⟨positive, fits, _⟩ := contract.parsed parsed
      exact absurd fits (Nat.not_le.mpr positive)

/-! ### Waiting -/

theorem bufferLimit_isSize (core : Core w) : core.bufferLimit.2.isSize = true := by
  unfold bufferLimit
  split <;> rfl

theorem bufferLimit_le (core : Core w) : core.bufferLimit.1 ≤
    max core.policy.maxSectionBytes core.policy.maxFunctionBodyBytes + headerSlack := by
  unfold bufferLimit
  split <;> apply saturatingAdd64_le <;> omega

theorem refusedWait_none {remaining : Nat} (allowed : core.refusedWait remaining need = none) :
    saturatingAdd64 remaining need ≤ core.bufferLimit.1 := by
  simp only [refusedWait] at allowed
  split at allowed
  · cases allowed
  · split at allowed
    · cases allowed
    · exact Nat.not_lt.mp ‹_›

/-- A wait is refused for a size; where it is for no more than an item inside the module, the
item does not fit the buffer. -/
theorem refusedWait_some {remaining : Nat} {limit : Limit}
    (refused : core.refusedWait remaining need = some limit) :
    limit.isSize = true ∧ ∀ size, remaining + need ≤ size →
      core.consumedTotal + size ≤ core.policy.maxModuleBytes → core.bufferLimit.1 < size := by
  simp only [refusedWait] at refused
  split at refused
  · rename_i large
    obtain rfl := Option.some.inj refused
    refine ⟨rfl, fun size lacks inside => absurd large (Nat.not_lt.mpr ?_)⟩
    have total := saturatingAdd64_le lacks
    exact saturatingAdd64_le (by omega)
  · split at refused
    · rename_i large
      obtain rfl := Option.some.inj refused
      exact ⟨core.bufferLimit_isSize, fun size lacks _ =>
        Nat.lt_of_lt_of_le large (saturatingAdd64_le lacks)⟩
    · cases refused

theorem asked_le (contract : w.Incremental) {item : Item w}
    (asked : w.parse core.parser data false = .ok (.needMoreData parser need))
    (nonempty : data ≠ []) (found : Place.item (core, data ++ rest) = some item) :
    data.length + need ≤ item.size := by
  obtain ⟨_, _, lacks⟩ := contract.asked asked
  obtain ⟨need_le, more | empty⟩ := lacks rest _ _ _ (item_eq.mp found)
  · omega
  · exact absurd (append_eq_nil_iff.mp empty).1 nonempty

end Core

/-! ### Faults -/

structure WithinSizes (w : Wasmparser) (policy : ModulePolicy) (module : List UInt8) : Prop where
  fits : module.length ≤ policy.maxModuleBytes
  items : ∀ place, Place.Reaches (.first w policy module) place →
    ∃ item, place.item = some item ∧ policy.Admits item.payload

open Place

def Stalled (w : Wasmparser) (policy : ModulePolicy) (module : List UInt8) (cuts : List Nat) :
    Prop :=
  ∃ place item, Reaches (.first w policy module) place ∧ place.item = some item ∧
    CutInside cuts place item ∧ Stalls place item

/-- What a refusal shows: one for a size, that an item stalls if the module is within the
sizes; any other, that the parse of the whole module ends there. -/
def Fault (w : Wasmparser) (policy : ModulePolicy) (module : List UInt8) (cuts : List Nat)
    (reason : ModuleError) : Prop :=
  (reason.isSize = true ∧ (WithinSizes w policy module → Stalled w policy module cuts)) ∨
    (reason.isSize = false ∧ WalksTo cuts (.first w policy module) reason)

section Faults

variable {policy : ModulePolicy} {module : List UInt8} {cuts : List Nat} {reason : ModuleError}

theorem within_first : Within policy module.length (.first w policy module) :=
  ⟨rfl, Nat.zero_add _⟩

theorem fault_of_walksTo (contract : w.Incremental) (small : module.length ≤ u64Max)
    (walk : WalksTo cuts (.first w policy module) reason) : Fault w policy module cuts reason := by
  cases size : reason.isSize with
  | false => exact .inr ⟨size, walk⟩
  | true =>
    refine .inl ⟨size, fun sizes => ?_⟩
    obtain ⟨place, walk, _, ⟨_, plain⟩ | ⟨item, after, found, taken⟩⟩ := walk
    · exact absurd (plain.symm.trans size) nofun
    · obtain ⟨_, same, admits⟩ := sizes.items place walk.reaches
      obtain rfl := Option.some.inj (found.symm.trans same)
      have shows :=
        Core.handle_spec contract { place.1 with parser := item.parser } item.payload
      rw [Ensures, show (Core.handle item.payload).runFrom _ = _ from taken] at shows
      have within := within_first.reaches contract small walk.reaches
      have plain := shows (within.policy ▸ admits)
      exact absurd (plain.symm.trans size) nofun

theorem Place.Comes.within (contract : w.Incremental) (small : module.length ≤ u64Max) {core : Core w}
    {tail : List UInt8} (comes : Comes cuts (.first w policy module) core tail) :
    Within policy module.length (core, tail) := by
  obtain ⟨_, _, walk⟩ := comes
  have there := within_first.reaches contract small walk.reaches
  exact ⟨there.policy, there.position⟩

theorem fault_of_refusedWait (contract : w.Incremental) (small : module.length ≤ u64Max)
    {core : Core w} {data rest : List UInt8} {parser : w.Parser} {need : Nat} {limit : Limit}
    (comes : Comes cuts (.first w policy module) core (data ++ rest)) (nonempty : data ≠ [])
    (asked : w.parse core.parser data false = .ok (.needMoreData parser need))
    (refused : core.refusedWait data.length need = some limit)
    (cut : rest ≠ [] → ∃ cut ∈ cuts, core.consumedTotal < cut ∧
      cut ≤ core.consumedTotal + data.length) :
    Fault w policy module cuts (.limitExceeded limit) := by
  obtain ⟨isSize, large⟩ := Core.refusedWait_some refused
  refine .inl ⟨isSize, fun sizes => ?_⟩
  have within := comes.within contract small
  obtain ⟨other, alike, walk⟩ := comes
  obtain ⟨item, there, _⟩ := sizes.items _ walk.reaches
  have found := (item_alike _ alike).symm.trans there
  have lacks := Core.asked_le contract asked nonempty found
  have positive := (contract.asked asked).2.1
  have size_le := (contract.whole (item_eq.mp found)).1
  have position := within.position
  simp only [length_append] at size_le position
  have more : rest ≠ [] := by
    rintro rfl
    simp only [length_nil] at size_le
    omega
  obtain ⟨inner, member, above, below⟩ := cut more
  refine ⟨_, item, walk.reaches, there, ⟨inner, member, above, by simp only; omega⟩, .inl ?_⟩
  have fits := sizes.fits
  apply large item.size lacks
  rw [show core.policy = policy from within.policy]
  omega

end Faults

end Rvm.Wasm
