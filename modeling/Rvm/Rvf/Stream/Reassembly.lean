import Rvm.Foundation.Piecewise
import Rvm.Rvf.Stream.Frame

/-!
Owns frame reassembly as a machine that takes one byte at a time, the proof that
the frame reader simulates it on every piece of input, and what follows: the
cutting of the input does not matter, and encoded frames arrive as they are.
-/

namespace Rvm.Rvf

open Foundation Foundation.Call List Feeding

/-! ### Headers -/

theorem headerLen_pos {frameType : UInt8} {hl : Nat} (known : headerLen frameType = some hl) :
    5 ≤ hl := by
  unfold headerLen at known
  split at known
  · cases known
    decide
  · split at known
    · cases known
      decide
    · split at known
      · cases known
        decide
      · cases known

theorem declaredPayload_isSome {header : List UInt8} {frameType : UInt8}
    (first : header.head? = some frameType) (known : headerLen frameType = some header.length) :
    ∃ payload, declaredPayload header = some payload := by
  have atZero : header[0]? = some frameType := by rw [← List.head?_eq_getElem?, first]
  unfold declaredPayload
  rw [atZero]
  unfold headerLen at known
  split at known
  · rename_i isDescriptor
    have long : header.length = 5 := (Option.some.inj known).symm
    simp [isDescriptor, littleEndianAt_eq, long]
  · rename_i notDescriptor
    split at known
    · rename_i isChunk
      have long : header.length = 17 := (Option.some.inj known).symm
      simp [isChunk, littleEndianAt_eq, long, frameChunk, frameDescriptor]
    · rename_i notChunk
      split at known
      · have long : header.length = 13 := (Option.some.inj known).symm
        simp [notDescriptor, notChunk, littleEndianAt_eq, long]
      · cases known

/-! ### The machine of bytes -/

/-- What the bytes of a frame so far amount to. -/
inductive Grade where
  | unknown | opened | lie | complete
deriving DecidableEq, Repr

structure Begun (Target Out Refusal : Type) where
  held : List UInt8
  target : Target
  handed : List (Handed Out Refusal)

section Machine

variable {Target Out Refusal : Type} (target : FrameTarget Target Out Refusal)

/-- The target cannot take more input. -/
def Refuses (here : Target) : Prop := (target.state here).refusal ≠ none

instance (here : Target) : Decidable (Refuses target here) := inferInstanceAs (Decidable (_ ≠ _))

def grade (here : Target) (bytes : List UInt8) : Grade :=
  match bytes.head?, bytes.head?.bind headerLen with
  | some frameType, some hl =>
    if bytes.length < hl then .opened
    else
      match declaredPayload (bytes.take hl) with
      | none => .unknown
      | some payload =>
        if payload > target.framePayloadLimit here frameType then .lie
        else if bytes.length < hl + payload then .opened
        else .complete
  | _, _ => .unknown

def Begun.poison (here : Begun Target Out Refusal) (reason : StreamError) :
    Begun Target Out Refusal :=
  ⟨[], (target.poison here.target reason).2, here.handed ++ [.poisoned reason]⟩

def Begun.settle (here : Begun Target Out Refusal) (bytes : List UInt8) :
    Option (Begun Target Out Refusal) :=
  match grade target here.target bytes with
  | .unknown => some (here.poison target .unexpectedFrame)
  | .lie => some (here.poison target .frameSizeLie)
  | .opened => some { here with held := bytes }
  | .complete =>
    (target.pushFrame here.target bytes).map fun (result, pushed) =>
      ⟨[], pushed, here.handed ++ [.pushed bytes result]⟩

def Begun.absorb (here : Begun Target Out Refusal) (byte : UInt8) :
    Option (Begun Target Out Refusal) :=
  if Refuses target here.target then some here else here.settle target (here.held ++ [byte])

variable {target}

theorem absorb_refused {here : Begun Target Out Refusal} (refuses : Refuses target here.target)
    (bytes : List UInt8) : bytes.foldlM (Begun.absorb target) here = some here := by
  induction bytes with
  | nil => rfl
  | cons byte rest ih =>
    rw [foldlM_cons, Begun.absorb, if_pos refuses]
    exact ih

theorem settle_held (here : Begun Target Out Refusal) (held bytes : List UInt8) :
    ({ here with held := held } : Begun Target Out Refusal).settle target bytes =
      here.settle target bytes := rfl

/-- A block of bytes is taken at once when every shorter one leaves the frame
open. -/
theorem absorb_block {here : Begun Target Out Refusal} (accepts : ¬ Refuses target here.target)
    {more : List UInt8} (nonempty : more ≠ [])
    (opened : ∀ n, 0 < n → n < more.length →
      grade target here.target (here.held ++ more.take n) = .opened) :
    more.foldlM (Begun.absorb target) here = here.settle target (here.held ++ more) := by
  induction more generalizing here with
  | nil => exact absurd rfl nonempty
  | cons byte rest ih =>
    rw [foldlM_cons, Begun.absorb, if_neg accepts]
    cases rest with
    | nil => simp
    | cons second rest =>
      have first : grade target here.target (here.held ++ [byte]) = .opened :=
        opened 1 Nat.one_pos (by simp)
      have settled : here.settle target (here.held ++ [byte]) =
          some { here with held := here.held ++ [byte] } := by
        rw [Begun.settle, first]
      have later := @ih { here with held := here.held ++ [byte] } accepts
        (cons_ne_nil _ _) fun n positive below => by
          have longer := opened (n + 1) (Nat.succ_pos n) (by simpa using below)
          simpa using longer
      rw [settle_held, append_assoc] at later
      rw [settled]
      exact later

/-! ### Grades -/

section Grades

variable {here : Target} {bytes : List UInt8} {frameType : UInt8} {hl payload : Nat}

theorem grade_unknown (first : bytes.head? = some frameType) (unknown : headerLen frameType = none) :
    grade target here bytes = .unknown := by
  simp [grade, first, unknown]

theorem grade_short (first : bytes.head? = some frameType) (known : headerLen frameType = some hl)
    (short : bytes.length < hl) : grade target here bytes = .opened := by
  simp [grade, first, known, short]

theorem grade_long (first : bytes.head? = some frameType) (known : headerLen frameType = some hl)
    (long : hl ≤ bytes.length) (declared : declaredPayload (bytes.take hl) = some payload) :
    grade target here bytes =
      if payload > target.framePayloadLimit here frameType then .lie
      else if bytes.length < hl + payload then .opened
      else .complete := by
  simp [grade, first, known, Nat.not_lt.mpr long, declared]

def needOf (bytes : List UInt8) : Option Nat :=
  match bytes.head?.bind headerLen with
  | none => none
  | some hl =>
    if bytes.length < hl then none else (declaredPayload (bytes.take hl)).map (hl + ·)

theorem needOf_short (first : bytes.head? = some frameType) (known : headerLen frameType = some hl)
    (short : bytes.length < hl) : needOf bytes = none := by
  simp [needOf, first, known, short]

theorem needOf_long (first : bytes.head? = some frameType) (known : headerLen frameType = some hl)
    (long : hl ≤ bytes.length) (declared : declaredPayload (bytes.take hl) = some payload) :
    needOf bytes = some (hl + payload) := by
  simp [needOf, first, known, Nat.not_lt.mpr long, declared]

end Grades

/-! ### The reader simulates the machine -/

/-- Poisoning a target that takes input leaves one that does not. -/
def FrameTarget.PoisonRefuses (target : FrameTarget Target Out Refusal) : Prop :=
  ∀ here reason, ¬ Refuses target here → Refuses target (target.poison here reason).2

/-- Reader and machine have handed over the same; while the target takes input, the
reader's buffer is the frame begun. -/
structure Related (target : FrameTarget Target Out Refusal) (here : Feeding Target Out Refusal)
    (there : Begun Target Out Refusal) : Prop where
  sameTarget : here.target = there.target
  sameHanded : here.handed = there.handed
  reader : ¬ Refuses target there.target → here.reader = ⟨there.held, needOf there.held⟩ ∧
    (there.held = [] ∨ grade target there.target there.held = .opened)

/-- A round that corresponds to settling the frame begun on these bytes, and goes on
with the rest of the input unless the target refuses. -/
def Settles (target : FrameTarget Target Out Refusal) (there : Begun Target Out Refusal)
    (bytes rest : List UInt8)
    (round : Option (Except StreamError (List UInt8) × Feeding Target Out Refusal)) : Prop :=
  Corresponds
    (fun outcome next => Related target outcome.2 next ∧
      (outcome.1 = .ok rest ∨ ∃ error, outcome.1 = .error error ∧ Refuses target next.target))
    round (there.settle target bytes)

section Rounds

variable {here : Feeding Target Out Refusal} {there : Begun Target Out Refusal}
  {bytes rest : List UInt8}

def Begun.withReader (there : Begun Target Out Refusal) (reader : FrameReader) :
    Feeding Target Out Refusal := ⟨reader, there.target, there.handed⟩

theorem settle_unknown (graded : grade target there.target bytes = .unknown) :
    there.settle target bytes = some (there.poison target .unexpectedFrame) := by
  rw [Begun.settle, graded]

theorem settle_lie (graded : grade target there.target bytes = .lie) :
    there.settle target bytes = some (there.poison target .frameSizeLie) := by
  rw [Begun.settle, graded]

theorem settles_poison (lawful : target.PoisonRefuses) (accepts : ¬ Refuses target there.target)
    {reader : FrameReader} {reason error : StreamError}
    (settled : there.settle target bytes = some (there.poison target reason)) :
    Settles target there bytes rest (some (.error error,
      (there.withReader reader).handTo (target.poison there.target reason).2
        (.poisoned reason))) := by
  have refuses : Refuses target (target.poison there.target reason).2 := lawful _ _ accepts
  rw [Settles, settled]
  exact ⟨⟨rfl, rfl, fun taking => absurd refuses taking⟩, .inr ⟨error, rfl, refuses⟩⟩

theorem settles_opened (opened : grade target there.target bytes = .opened) :
    Settles target there bytes rest
      (some (.ok rest, there.withReader ⟨bytes, needOf bytes⟩)) := by
  rw [Settles, Begun.settle, opened]
  exact ⟨⟨rfl, rfl, fun _ => ⟨rfl, .inr opened⟩⟩, .inl rfl⟩

theorem settles_complete (complete : grade target there.target bytes = .complete) :
    Settles target there bytes rest ((target.pushFrame there.target bytes).map fun pushed =>
      (.ok rest, ⟨.new, pushed.2, there.handed ++ [.pushed bytes pushed.1]⟩)) := by
  rw [Settles, Begun.settle, complete]
  cases target.pushFrame there.target bytes with
  | none => trivial
  | some pushed => exact ⟨⟨rfl, rfl, fun _ => ⟨rfl, .inl rfl⟩⟩, .inl rfl⟩

theorem runFrom_pushComplete {frame : List UInt8} :
    (pushComplete target frame).runFrom here = (target.pushFrame here.target frame).map
      fun pushed => (.ok ⟨⟩, here.handTo pushed.2 (.pushed frame pushed.1)) := by
  unfold pushComplete
  simp only [runFrom_bind, runFrom_get]
  cases target.pushFrame here.target frame <;> rfl

section Admission

variable {header : List UInt8} {frameType : UInt8} {payload : Nat}

theorem runFrom_admitHeader_lie (first : header.head? = some frameType)
    (declared : declaredPayload header = some payload)
    (lie : payload > target.framePayloadLimit here.target frameType) :
    (admitHeader target header).runFrom here =
      some (.error (target.poison here.target .frameSizeLie).1,
        here.handTo (target.poison here.target .frameSizeLie).2 (.poisoned .frameSizeLie)) := by
  unfold admitHeader
  rw [declared, ← List.head?_eq_getElem?, first]
  simp only [runFrom_bind, runFrom_orPanic_some, runFrom_get, if_pos lie]
  rfl

theorem runFrom_admitHeader (first : header.head? = some frameType)
    (declared : declaredPayload header = some payload)
    (fits : ¬ payload > target.framePayloadLimit here.target frameType) :
    (admitHeader target header).runFrom here = some (.ok (header.length + payload), here) := by
  unfold admitHeader
  rw [declared, ← List.head?_eq_getElem?, first]
  simp only [runFrom_bind, runFrom_orPanic_some, runFrom_get, if_neg fits, runFrom_pure]

end Admission

/-! ### The buffered path -/

theorem runFrom_pushBuffered_part {total : Nat} (part : bytes.length ≠ total) :
    (pushBuffered target).runFrom (there.withReader ⟨bytes, some total⟩) =
      some (.ok ⟨⟩, there.withReader ⟨bytes, some total⟩) := by
  have skip : ¬ some bytes.length = some total := fun same => part (Option.some.inj same)
  simp only [pushBuffered, runFrom_bind, runFrom_get, Begun.withReader, if_neg skip, runFrom_pure]

theorem runFrom_pushBuffered_whole :
    (pushBuffered target).runFrom (there.withReader ⟨bytes, some bytes.length⟩) =
      (target.pushFrame there.target bytes).map fun pushed =>
        (.ok ⟨⟩, ⟨.new, pushed.2, there.handed ++ [.pushed bytes pushed.1]⟩) := by
  simp only [pushBuffered, runFrom_bind, runFrom_get, Begun.withReader, if_true, runFrom_set,
    runFrom_pushComplete, withNeed]
  cases target.pushFrame there.target bytes <;> rfl

theorem settles_pushBuffered {frameType : UInt8} {hl payload : Nat}
    (first : bytes.head? = some frameType) (known : headerLen frameType = some hl)
    (long : hl ≤ bytes.length) (declared : declaredPayload (bytes.take hl) = some payload)
    (fits : ¬ payload > target.framePayloadLimit there.target frameType)
    (within : bytes.length ≤ hl + payload) :
    Settles target there bytes rest
      (((pushBuffered target).runFrom (there.withReader ⟨bytes, some (hl + payload)⟩)).map
        fun outcome => (outcome.1.map fun _ => rest, outcome.2)) := by
  have graded := @grade_long _ _ _ target there.target _ _ _ _ first known long declared
  rw [if_neg fits] at graded
  by_cases whole : bytes.length = hl + payload
  · rw [if_neg (by omega)] at graded
    rw [← whole, runFrom_pushBuffered_whole, Option.map_map]
    exact settles_complete graded
  · rw [if_pos (by omega)] at graded
    rw [runFrom_pushBuffered_part whole, ← needOf_long first known long declared]
    exact settles_opened graded

theorem settles_settleBuffered (lawful : target.PoisonRefuses)
    (accepts : ¬ Refuses target there.target) {frameType : UInt8} {hl : Nat}
    (first : bytes.head? = some frameType) (known : headerLen frameType = some hl)
    (within : bytes.length ≤ hl) :
    Settles target there bytes rest
      (((settleBuffered target hl).runFrom (there.withReader ⟨bytes, none⟩)).map
        fun outcome => (outcome.1.map fun _ => rest, outcome.2)) := by
  unfold settleBuffered admitBuffered
  by_cases whole : bytes.length = hl
  · -- The header is complete: it is admitted, and the frame pushed if it has no payload.
    obtain ⟨payload, declared⟩ := declaredPayload_isSome first (whole ▸ known)
    have declaredTake : declaredPayload (bytes.take hl) = some payload := by
      rw [← whole, take_length]
      exact declared
    have long := Nat.le_of_eq whole.symm
    have graded := @grade_long _ _ _ target there.target _ _ _ _ first known long declaredTake
    by_cases lie : payload > target.framePayloadLimit there.target frameType
    · rw [if_pos lie] at graded
      have admitted := @runFrom_admitHeader_lie _ _ _ target (there.withReader ⟨bytes, none⟩) _ _ _
        first declared lie
      simp only [Begun.withReader] at admitted
      simp only [runFrom_bind, runFrom_get, Begun.withReader, true_and, if_pos whole, admitted]
      exact settles_poison lawful accepts (settle_lie graded)
    · have admitted := @runFrom_admitHeader _ _ _ target (there.withReader ⟨bytes, none⟩) _ _ _
        first declared lie
      simp only [Begun.withReader] at admitted
      simp only [runFrom_bind, runFrom_get, Begun.withReader, true_and, if_pos whole, admitted,
        runFrom_modify, withNeed]
      rw [whole]
      exact settles_pushBuffered first known long declaredTake lie (by omega)
  · have opened := @grade_short _ _ _ target there.target _ _ _ first known (by omega)
    have needed := needOf_short first known (by omega : bytes.length < hl)
    simp only [runFrom_bind, runFrom_get, Begun.withReader, runFrom_pure, pushBuffered,
      reduceCtorEq, if_false, true_and, if_neg whole]
    have settled := @settles_opened _ _ _ target there _ rest opened
    rw [needed] at settled
    exact settled

theorem runFrom_feedBuffered {byte : UInt8} {tail : List UInt8} {goal : Nat}
    (goalIs : goalOf here.reader byte = some goal) (fits : here.reader.buf.length ≤ goal) :
    (feedBuffered target (byte :: tail)).runFrom here =
      ((settleBuffered target goal).runFrom (here.withBuf (here.reader.buf ++
        (byte :: tail).take (goal - here.reader.buf.length)))).map fun outcome =>
          (outcome.1.map fun _ => (byte :: tail).drop (goal - here.reader.buf.length), outcome.2) := by
  have dropped : (byte :: tail).drop (min (goal - here.reader.buf.length) (byte :: tail).length) =
      (byte :: tail).drop (goal - here.reader.buf.length) := by
    rcases Nat.le_total (goal - here.reader.buf.length) (byte :: tail).length with le | le
    · rw [Nat.min_eq_left le]
    · rw [Nat.min_eq_right le, drop_length, drop_eq_nil_of_le le]
  have taken : (byte :: tail).take (min (goal - here.reader.buf.length) (byte :: tail).length) =
      (byte :: tail).take (goal - here.reader.buf.length) := by
    rw [← take_take, take_length]
  rw [feedBuffered, ← runFrom_return]
  simp only [runFrom_bind, runFrom_get, List.getElem?_cons_zero, runFrom_orPanic_some, goalIs,
    orThrow, runFrom_pure, if_pos fits, runFrom_set, dropped, taken]

/-- A round takes a block off the front of the input, which leaves the frame open
up to its last byte, and settles on it. -/
def Advances (target : FrameTarget Target Out Refusal) (there : Begun Target Out Refusal)
    (data : List UInt8)
    (round : Option (Except StreamError (List UInt8) × Feeding Target Out Refusal)) : Prop :=
  ∃ count, 0 < count ∧ data ≠ [] ∧
    (∀ n, 0 < n → n < (data.take count).length →
      grade target there.target (there.held ++ data.take n) = .opened) ∧
    Settles target there (there.held ++ data.take count) (data.drop count) round

theorem head_append_take {held tail : List UInt8} {byte : UInt8} {count : Nat}
    (positive : 0 < count) :
    (held ++ (byte :: tail).take count).head? = (held ++ byte :: tail).head? := by
  cases held with
  | cons first rest => rfl
  | nil =>
    cases count with
    | zero => cases positive
    | succ count => rfl

theorem feedBuffered_header (lawful : target.PoisonRefuses)
    (accepts : ¬ Refuses target there.target) {byte frameType : UInt8} {tail : List UInt8} {hl : Nat}
    (first : (there.held ++ byte :: tail).head? = some frameType)
    (known : headerLen frameType = some hl) (short : there.held.length < hl) :
    Advances target there (byte :: tail)
      ((feedBuffered target (byte :: tail)).runFrom (there.withReader ⟨there.held, none⟩)) := by
  have goal : goalOf (there.withReader ⟨there.held, none⟩).reader byte = some hl := by
    rw [← known]
    show headerLen (there.held.head?.getD byte) = headerLen frameType
    cases held : there.held with
    | nil | cons begun rest =>
      rw [held] at first
      exact congrArg headerLen (Option.some.inj first)
  rw [runFrom_feedBuffered goal (Nat.le_of_lt short)]
  refine ⟨hl - there.held.length, by omega, cons_ne_nil _ _, fun n here below => ?_, ?_⟩
  · apply grade_short ((head_append_take here).trans first) known
    rw [length_append]
    have le := length_take_le n (byte :: tail)
    have lt := length_take_le (hl - there.held.length) (byte :: tail)
    omega
  · apply settles_settleBuffered lawful accepts
      ((head_append_take (by omega)).trans first) known
    rw [length_append]
    have le := length_take_le (hl - there.held.length) (byte :: tail)
    omega

theorem feedBuffered_payload {byte frameType : UInt8} {tail : List UInt8} {hl payload : Nat}
    (first : there.held.head? = some frameType) (known : headerLen frameType = some hl)
    (long : hl ≤ there.held.length) (declared : declaredPayload (there.held.take hl) = some payload)
    (fits : ¬ payload > target.framePayloadLimit there.target frameType)
    (part : there.held.length < hl + payload) :
    Advances target there (byte :: tail) ((feedBuffered target (byte :: tail)).runFrom
      (there.withReader ⟨there.held, some (hl + payload)⟩)) := by
  have firstMore : ∀ more, (there.held ++ more).head? = some frameType := by
    intro more
    rw [List.head?_append, first]
    rfl
  have longMore : ∀ more, hl ≤ (there.held ++ more).length := by
    intro more
    rw [length_append]
    omega
  have declaredMore : ∀ more, declaredPayload ((there.held ++ more).take hl) = some payload := by
    intro more
    rw [take_append_of_le_length long, declared]
  rw [@runFrom_feedBuffered _ _ _ target _ _ _ (hl + payload) rfl (Nat.le_of_lt part)]
  refine ⟨hl + payload - there.held.length, by omega, cons_ne_nil _ _,
    fun n here below => ?_, ?_⟩
  · rw [grade_long (firstMore _) known (longMore _) (declaredMore _), if_neg fits, if_pos]
    rw [length_append]
    have le := length_take_le n (byte :: tail)
    have lt := length_take_le (hl + payload - there.held.length) (byte :: tail)
    omega
  · unfold settleBuffered admitBuffered
    simp only [runFrom_bind, runFrom_get, withBuf, Begun.withReader, reduceCtorEq,
      false_and, if_false, runFrom_pure]
    apply settles_pushBuffered (firstMore _) known (longMore _) (declaredMore _) fits
    rw [length_append]
    have le := length_take_le (hl + payload - there.held.length) (byte :: tail)
    omega

/-! ### Rounds -/

theorem feedRound_whole {byte : UInt8} {tail : List UInt8} {hl payload : Nat}
    (fresh : there.held = []) (known : headerLen byte = some hl)
    (declared : declaredPayload ((byte :: tail).take hl) = some payload)
    (fits : ¬ payload > target.framePayloadLimit there.target byte)
    (whole : hl + payload ≤ (byte :: tail).length) :
    (feedRound target (byte :: tail)).runFrom (there.withReader ⟨there.held, none⟩) =
      (target.pushFrame there.target ((byte :: tail).take (hl + payload))).map fun pushed =>
        (.ok ((byte :: tail).drop (hl + payload)), ⟨.new, pushed.2,
          there.handed ++ [.pushed ((byte :: tail).take (hl + payload)) pushed.1]⟩) := by
  have five := headerLen_pos known
  have empty : (there.withReader ⟨there.held, none⟩).reader.buf = [] := fresh
  have long : (byte :: tail).length ≥ hl := by omega
  have first : ((byte :: tail).take hl).head? = some byte :=
    @head_append_take [] tail byte hl (by omega)
  have admitted := @runFrom_admitHeader _ _ _ target (there.withReader ⟨there.held, none⟩) _ _ _
    first declared fits
  rw [length_take_of_le long] at admitted
  unfold feedRound feedWhole
  simp only [runFrom_bind, runFrom_get, if_pos empty, List.getElem?_cons_zero, known,
    runFrom_orPanic_some, if_pos long, admitted, if_pos (ge_iff_le.mpr whole),
    runFrom_pushComplete]
  simp only [Begun.withReader, handTo, fresh]
  cases target.pushFrame there.target ((byte :: tail).take (hl + payload)) <;> rfl

/-- A frame that begins at the front of the input: refused for its type or its size,
pushed when it is whole, and buffered otherwise. -/
theorem feedRound_front (lawful : target.PoisonRefuses) (accepts : ¬ Refuses target there.target)
    (fresh : there.held = []) (byte : UInt8) (tail : List UInt8) :
    Advances target there (byte :: tail)
      ((feedRound target (byte :: tail)).runFrom (there.withReader ⟨there.held, none⟩)) := by
  have empty : (there.withReader ⟨there.held, none⟩).reader.buf = [] := fresh
  have front : ∀ n, there.held ++ (byte :: tail).take n = (byte :: tail).take n := by
    intro n
    rw [fresh]
    rfl
  have first : ∀ n, 0 < n → ((byte :: tail).take n).head? = some byte := by
    intro n positive
    rw [← front n, head_append_take positive, fresh]
    rfl
  unfold feedRound feedWhole
  cases known : headerLen byte with
  | none =>
    refine ⟨1, Nat.one_pos, cons_ne_nil _ _, fun n here below => ?_, ?_⟩
    · rw [length_take] at below
      omega
    · simp only [runFrom_bind, runFrom_get, if_pos empty, List.getElem?_cons_zero,
        runFrom_orPanic_some, known, refusePoisoned, runFrom_set, runFrom_throw]
      apply settles_poison lawful accepts
      rw [front]
      exact settle_unknown (grade_unknown (first 1 Nat.one_pos) known)
  | some hl =>
    have five := headerLen_pos known
    have buffered := @feedBuffered_header _ _ _ target there lawful accepts byte byte tail hl
      (by rw [fresh]; rfl) known (by rw [fresh, length_nil]; omega)
    simp only [runFrom_bind, runFrom_get, if_pos empty, List.getElem?_cons_zero,
      runFrom_orPanic_some, known]
    by_cases long : (byte :: tail).length ≥ hl
    · have headerLength : ((byte :: tail).take hl).length = hl := length_take_of_le long
      have headerFirst := first hl (by omega)
      obtain ⟨payload, declared⟩ := declaredPayload_isSome headerFirst
        (by rw [headerLength]; exact known)
      have short : ∀ n, 0 < n → n < hl →
          grade target there.target (there.held ++ (byte :: tail).take n) = .opened := by
        intro n positive below
        rw [front]
        apply grade_short (first n positive) known
        have le := length_take_le n (byte :: tail)
        omega
      have declaredTake : ∀ n, hl ≤ n →
          declaredPayload (((byte :: tail).take n).take hl) = some payload := by
        intro n le
        rw [take_take, Nat.min_eq_left le, declared]
      have longTake : ∀ n, hl ≤ n → hl ≤ ((byte :: tail).take n).length := by
        intro n le
        rw [length_take]
        omega
      by_cases lie : payload > target.framePayloadLimit there.target byte
      · have admitted := @runFrom_admitHeader_lie _ _ _ target (there.withReader ⟨there.held, none⟩)
          _ _ _ headerFirst declared lie
        simp only [if_pos long, runFrom_bind, admitted]
        refine ⟨hl, by omega, cons_ne_nil _ _, fun n here below => short n here ?_, ?_⟩
        · omega
        · apply settles_poison lawful accepts
          rw [front]
          apply settle_lie
          rw [grade_long headerFirst known (longTake hl (Nat.le_refl _))
            (declaredTake hl (Nat.le_refl _)), if_pos lie]
      · have admitted := @runFrom_admitHeader _ _ _ target (there.withReader ⟨there.held, none⟩)
          _ _ _ headerFirst declared lie
        rw [headerLength] at admitted
        simp only [if_pos long, runFrom_bind, admitted]
        have graded : ∀ n, hl ≤ n → grade target there.target ((byte :: tail).take n) =
            if ((byte :: tail).take n).length < hl + payload then .opened else .complete := by
          intro n le
          rw [grade_long (first n (by omega)) known (longTake n le) (declaredTake n le), if_neg lie]
        by_cases whole : (byte :: tail).length ≥ hl + payload
        · have pushes := @feedRound_whole _ _ _ target there byte tail hl payload fresh known
            declared lie whole
          unfold feedRound feedWhole at pushes
          simp only [runFrom_bind, runFrom_get, if_pos empty, List.getElem?_cons_zero,
            runFrom_orPanic_some, known, if_pos long, admitted, if_pos whole] at pushes ⊢
          rw [pushes]
          refine ⟨hl + payload, by omega, cons_ne_nil _ _, fun n here below => ?_, ?_⟩
          · rw [length_take_of_le whole] at below
            by_cases inHeader : n < hl
            · exact short n here inHeader
            · rw [front, graded n (by omega), if_pos]
              have le := length_take_le n (byte :: tail)
              omega
          · have complete := graded (hl + payload) (Nat.le_add_right _ _)
            rw [if_neg (by rw [length_take_of_le whole]; omega)] at complete
            rw [front]
            exact settles_complete complete
        · simp only [if_neg whole, runFrom_pure]
          exact buffered
    · simp only [if_neg long, runFrom_pure]
      exact buffered

theorem opened_cases {here : Target} (opened : grade target here bytes = .opened) :
    ∃ frameType hl, bytes.head? = some frameType ∧ headerLen frameType = some hl ∧
      (bytes.length < hl ∨ hl ≤ bytes.length ∧ ∃ payload,
        declaredPayload (bytes.take hl) = some payload ∧
          ¬ payload > target.framePayloadLimit here frameType ∧ bytes.length < hl + payload) := by
  unfold grade at opened
  split at opened
  · rename_i frameType hl first known
    rw [first] at known
    refine ⟨frameType, hl, first, known, ?_⟩
    split at opened
    · exact .inl ‹_›
    · split at opened
      · cases opened
      · rename_i payload declared
        split at opened
        · cases opened
        · split at opened
          · exact .inr ⟨by omega, payload, declared, ‹_›, ‹_›⟩
          · cases opened
  · cases opened

theorem feedRound_spec (lawful : target.PoisonRefuses) (accepts : ¬ Refuses target there.target)
    (begun : there.held = [] ∨ grade target there.target there.held = .opened) (byte : UInt8)
    (tail : List UInt8) :
    Advances target there (byte :: tail)
      ((feedRound target (byte :: tail)).runFrom
        (there.withReader ⟨there.held, needOf there.held⟩)) := by
  by_cases fresh : there.held = []
  · have noNeed : needOf there.held = none := by rw [fresh]; rfl
    rw [noNeed]
    exact feedRound_front lawful accepts fresh byte tail
  · obtain ⟨frameType, hl, first, known, extent⟩ := opened_cases (begun.resolve_left fresh)
    have notEmpty : ¬ (there.withReader ⟨there.held, needOf there.held⟩).reader.buf = [] := fresh
    have firstMore : (there.held ++ byte :: tail).head? = some frameType := by
      rw [List.head?_append, first]
      rfl
    unfold feedRound feedWhole
    simp only [runFrom_bind, runFrom_get, if_neg notEmpty, runFrom_pure]
    rcases extent with short | ⟨long, payload, declared, fits, part⟩
    · rw [needOf_short first known short]
      exact feedBuffered_header lawful accepts firstMore known short
    · rw [needOf_long first known long declared]
      exact feedBuffered_payload first known long declared fits part

end Rounds

/-! ### Whole inputs -/

theorem feed_succ (fuel : Nat) (here : Feeding Target Out Refusal) {data : List UInt8}
    (nonempty : data ≠ []) (accepts : ¬ Refuses target here.target) :
    feed target (fuel + 1) here data = ((feedRound target data).runFrom here).bind fun outcome =>
      match outcome.1 with
      | .ok rest => feed target fuel outcome.2 rest
      | .error _ => some outcome.2 := by
  have taking : (target.state here.target).refusal = none := not_not.mp accepts
  unfold feed
  rw [feedLoop, if_neg nonempty]
  simp only [runFrom_bind, runFrom_get, taking]
  rcases (feedRound target data).runFrom here with _ | ⟨_ | _, _⟩ <;> rfl

theorem feed_simulates (lawful : target.PoisonRefuses) (fuel : Nat) :
    Simulates (feed target fuel) (Begun.absorb target) (Related target)
      fun data => data.length < fuel := by
  intro data here there enough related
  induction fuel generalizing data here there with
  | zero => cases enough
  | succ fuel ih =>
    cases data with
    | nil => exact related
    | cons byte tail =>
      by_cases refuses : Refuses target there.target
      · rw [absorb_refused refuses]
        obtain ⟨error, refusal⟩ := Option.ne_none_iff_exists'.mp refuses
        have stays : feed target (fuel + 1) here (byte :: tail) = some here := by
          unfold feed
          rw [feedLoop, if_neg (cons_ne_nil _ _)]
          simp only [runFrom_bind, runFrom_get, related.sameTarget, refusal, runFrom_throw,
            Option.map_some]
        rw [stays]
        exact related
      · obtain ⟨reader, begun⟩ := related.reader refuses
        have hereEq : here = there.withReader ⟨there.held, needOf there.held⟩ := by
          obtain ⟨_, _, _⟩ := here
          obtain ⟨rfl, rfl, _⟩ := related
          rw [Begun.withReader, ← reader]
        obtain ⟨count, positive, nonempty, opened, settles⟩ :=
          feedRound_spec lawful refuses begun byte tail
        have taken : (byte :: tail).take count ≠ [] := by
          simp
          omega
        have block := absorb_block refuses taken (by
          intro n here below
          rw [take_take, Nat.min_eq_left]
          · exact opened n here below
          · have le := length_take_le count (byte :: tail)
            omega)
        have split : (byte :: tail).foldlM (Begun.absorb target) there =
            ((byte :: tail).take count).foldlM (Begun.absorb target) there >>=
              fun next => ((byte :: tail).drop count).foldlM (Begun.absorb target) next := by
          rw [← foldlM_append, take_append_drop]
        rw [split, block, hereEq, feed_succ fuel _ (cons_ne_nil _ _) refuses]
        apply Corresponds.bind settles
        rintro ⟨result, after⟩ next ⟨relatedNext, ended⟩
        rcases ended with rfl | ⟨error, rfl, refused⟩
        · apply ih _ _ _ _ relatedNext
          rw [length_cons] at enough
          rw [length_drop, length_cons]
          omega
        · rw [absorb_refused refused]
          exact relatedNext

def Feeding.seen (here : Feeding Target Out Refusal) : Target × List (Handed Out Refusal) :=
  (here.target, here.handed)

theorem feedPieces_flatten (lawful : target.PoisonRefuses) (start : Target) {fuel : Nat}
    {pieces : List (List UInt8)} (enough : pieces.flatten.length < fuel) :
    (feedPieces target fuel (.new start) pieces).map seen =
      (feedPieces target fuel (.new start) [pieces.flatten]).map seen := by
  have related : Related target (.new start : Feeding Target Out Refusal) ⟨[], start, []⟩ :=
    ⟨rfl, rfl, fun _ => ⟨rfl, .inl rfl⟩⟩
  apply (feed_simulates lawful fuel).cut_independent
    (fun here there (same : Related target here there) =>
      show here.seen = (there.target, there.handed) by
        rw [seen, same.sameTarget, same.sameHanded]) _ _ (by simp) related
  · intro piece member
    have le := List.Sublist.length_le (sublist_flatten_of_mem member)
    omega
  · intro piece member
    rw [mem_singleton.mp member]
    exact enough

end Machine

end Rvm.Rvf
