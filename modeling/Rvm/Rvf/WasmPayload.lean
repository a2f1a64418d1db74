import Rvm.Foundation.Bytes
import Rvm.Rvf.Format

/-!
Owns the payload of a WASM segment (`rvm-rvf/src/wasm_payload.rs`): the scanner
that splits a header off the module while the payload arrives, and what it
reports of the pieces put together.
-/

namespace Rvm.Rvf

open Foundation List

def wasmHeaderLen : Nat := 64

def wasmMagicBytes : List UInt8 := [0x4D, 0x57, 0x56, 0x52]

/-- Why a payload was refused. -/
inductive WasmPayloadError where
  | truncatedHeader
  | unsupportedVersion (version : Nat)
  | unknownEnumValue
  | compressed
  | reservedNonZero
  | emptyBytecode
  | lengthMismatch
deriving DecidableEq, Repr

/-- Where the module is in the payload, and its identity. -/
structure ModuleSpan where
  offset : Nat
  len : Nat
  sha256 : Octets 32
deriving DecidableEq

inductive WasmPayloadFacts where
  | bare (span : ModuleSpan)
  | headed (span : ModuleSpan)
  | rejected (reason : WasmPayloadError)
deriving DecidableEq

/-- The little-endian integer at an offset of a header held whole. -/
def headField (width : Nat) (head : List UInt8) (offset : Nat) : Nat :=
  littleEndianValue ((head.drop offset).take width)

def parseHeader (head : List UInt8) : Except WasmPayloadError Nat :=
  let version := headField 2 head 4
  if version ≠ 1 then .error (.unsupportedVersion version)
  else if headField 1 head 6 > 4 ∨ headField 1 head 7 > 4 then .error .unknownEnumValue
  else if headField 4 head 0x10 ≠ 0 ∨ headField 1 head 0x14 ≠ 0 then .error .compressed
  else if ((head.take 0x40).drop 0x3A).any (· != 0) then .error .reservedNonZero
  else
    let size := headField 4 head 0x0C
    if size = 0 then .error .emptyBytecode else .ok size

/-! ### The scanner -/

inductive Mode where
  | undecided
  | bare
  | header
  | body (want : Nat)
  | failed (reason : WasmPayloadError)
deriving DecidableEq, Repr

/-- `held` is the filled part of the header buffer; `passed` is what went to the
sink and into the hash. -/
structure WasmPayloadScanner where
  mode : Mode
  held : List UInt8
  passed : List UInt8
deriving DecidableEq, Repr

/-- What a push returns, the scanner after it, and the calls of the sink. -/
structure Scan where
  result : Except WasmPayloadError Unit
  scanner : WasmPayloadScanner
  sunk : List (List UInt8)

namespace WasmPayloadScanner

def new : WasmPayloadScanner := ⟨.undecided, [], []⟩

def emit (s : WasmPayloadScanner) (bytes : List UInt8) : Scan :=
  if bytes = [] then ⟨.ok (), s, []⟩
  else ⟨.ok (), { s with passed := s.passed ++ bytes }, [bytes]⟩

def fail (s : WasmPayloadScanner) (reason : WasmPayloadError) : Scan :=
  ⟨.error reason, { s with mode := .failed reason }, []⟩

/-- The loop of `push` at module bytes that may not exceed the declared size. -/
def pushBody (s : WasmPayloadScanner) (want : Nat) (bytes : List UInt8) : Scan :=
  if bytes.length > want - s.passed.length then s.fail .lengthMismatch else s.emit bytes

def pushHeaded (s : WasmPayloadScanner) (rest : List UInt8) : Scan :=
  match parseHeader s.held with
  | .ok want => { s with mode := .body want }.pushBody want rest
  | .error reason => s.fail reason

/-- No header: what was held back is emitted before the rest. -/
def pushBare (s : WasmPayloadScanner) (rest : List UInt8) : Scan :=
  let first := { s with mode := .bare }.emit s.held
  let second := first.scanner.emit rest
  { second with sunk := first.sunk ++ second.sunk }

def fill (s : WasmPayloadScanner) (bytes : List UInt8) : WasmPayloadScanner :=
  { s with held := s.held ++ bytes.take (wasmHeaderLen - s.held.length) }

def push (s : WasmPayloadScanner) (bytes : List UInt8) : Scan :=
  match s.mode with
  | .failed reason => ⟨.error reason, s, []⟩
  | .bare => s.emit bytes
  | .body want => s.pushBody want bytes
  | .undecided =>
    let filled := s.fill bytes
    let rest := bytes.drop (wasmHeaderLen - s.held.length)
    if filled.held.length < 4 then ⟨.ok (), filled, []⟩
    else if filled.held.take 4 ≠ wasmMagicBytes then filled.pushBare rest
    else if filled.held.length = wasmHeaderLen then filled.pushHeaded rest
    else ⟨.ok (), { filled with mode := .header }, []⟩
  | .header =>
    let filled := s.fill bytes
    let rest := bytes.drop (wasmHeaderLen - s.held.length)
    if filled.held.length = wasmHeaderLen then filled.pushHeaded rest
    else ⟨.ok (), filled, []⟩

/-- The payload ended: its facts, and what still goes to the sink. -/
def finish (sha256 : List UInt8 → Octets 32) (s : WasmPayloadScanner) :
    WasmPayloadFacts × List (List UInt8) :=
  match s.mode with
  | .failed reason => (.rejected reason, [])
  | .undecided =>
    let held := s.emit s.held
    (.bare ⟨0, held.scanner.passed.length, sha256 held.scanner.passed⟩, held.sunk)
  | .bare => (.bare ⟨0, s.passed.length, sha256 s.passed⟩, [])
  | .header => (.rejected .truncatedHeader, [])
  | .body want =>
    if s.passed.length = want then
      (.headed ⟨wasmHeaderLen, s.passed.length, sha256 s.passed⟩, [])
    else (.rejected .lengthMismatch, [])

end WasmPayloadScanner

def scanPayload (sha256 : List UInt8 → Octets 32) (payload : List UInt8) : WasmPayloadFacts :=
  let pushed := WasmPayloadScanner.new.push payload
  match pushed.result with
  | .ok () => (pushed.scanner.finish sha256).1
  | .error reason => .rejected reason

/-- A whole payload split into its module bytes. -/
def splitWasmPayload (sha256 : List UInt8 → Octets 32) (payload : List UInt8) :
    Except WasmPayloadError (List UInt8) :=
  let pushed := WasmPayloadScanner.new.push payload
  match pushed.result with
  | .error reason => .error reason
  | .ok () =>
    match (pushed.scanner.finish sha256).1 with
    | .bare _ => .ok payload
    | .headed span => .ok (payload.drop span.offset)
    | .rejected reason => .error reason

/-- The pieces of a payload pushed in order, whatever each push returns: the scanner after them
and the calls of the sink. -/
def WasmPayloadScanner.pushAll (s : WasmPayloadScanner) :
    List (List UInt8) → WasmPayloadScanner × List (List UInt8)
  | [] => (s, [])
  | piece :: rest =>
    let scan := s.push piece
    let later := scan.scanner.pushAll rest
    (later.1, scan.sunk ++ later.2)

/-! ### What a scanner has seen -/

structure Declared (payload : List UInt8) (want : Nat) : Prop where
  magic : payload.take 4 = wasmMagicBytes
  complete : wasmHeaderLen ≤ payload.length
  parsed : parseHeader (payload.take wasmHeaderLen) = .ok want

theorem take_append_of_le {payload bytes : List UInt8} {count : Nat} (long : count ≤ payload.length) :
    (payload ++ bytes).take count = payload.take count :=
  take_append_of_le_length long

theorem Declared.append {payload bytes : List UInt8} {want : Nat} (declared : Declared payload want) :
    Declared (payload ++ bytes) want where
  magic := by
    rw [take_append_of_le (Nat.le_trans (by decide) declared.complete)]
    exact declared.magic
  complete := by
    rw [length_append]
    exact Nat.le_add_right_of_le declared.complete
  parsed := by
    rw [take_append_of_le declared.complete]
    exact declared.parsed

theorem length_of_magic {payload : List UInt8} (magic : payload.take 4 = wasmMagicBytes) :
    4 ≤ payload.length := by
  have sized := congrArg List.length magic
  rw [length_take] at sized
  have magicLength : wasmMagicBytes.length = 4 := rfl
  omega

def HasScanned (payload : List UInt8) (s : WasmPayloadScanner) : Prop :=
  match s.mode with
  | .undecided => payload.length < 4 ∧ s.held = payload ∧ s.passed = []
  | .bare => payload.take 4 ≠ wasmMagicBytes ∧ 4 ≤ payload.length ∧ s.passed = payload
  | .header =>
    payload.take 4 = wasmMagicBytes ∧ payload.length < wasmHeaderLen ∧ s.held = payload ∧
      s.passed = []
  | .body want =>
    Declared payload want ∧ s.passed = payload.drop wasmHeaderLen ∧ s.passed.length ≤ want
  | .failed reason =>
    payload.take 4 = wasmMagicBytes ∧ wasmHeaderLen ≤ payload.length ∧
      (parseHeader (payload.take wasmHeaderLen) = .error reason ∧ s.passed = [] ∨
        reason = .lengthMismatch ∧ ∃ want, Declared payload want ∧
          want < (payload.drop wasmHeaderLen).length ∧
          s.passed <+: (payload.drop wasmHeaderLen).take want)

/-- A push extends what was seen and hands on what it passed. -/
structure Pushed (payload bytes : List UInt8) (s : WasmPayloadScanner) (scan : Scan) : Prop where
  scanned : HasScanned (payload ++ bytes) scan.scanner
  passed : scan.scanner.passed = s.passed ++ scan.sunk.flatten
  result : scan.result = .ok () ∨ ∃ reason, scan.result = .error reason ∧
    scan.scanner.mode = .failed reason
  accepted : scan.result = .ok () → ∀ reason, scan.scanner.mode ≠ .failed reason

namespace WasmPayloadScanner

theorem scanned_new : HasScanned [] new := ⟨by decide, rfl, rfl⟩

@[simp] theorem emit_result (s : WasmPayloadScanner) (bytes : List UInt8) :
    (s.emit bytes).result = .ok () := by
  unfold emit
  split <;> rfl

@[simp] theorem emit_mode (s : WasmPayloadScanner) (bytes : List UInt8) :
    (s.emit bytes).scanner.mode = s.mode := by
  unfold emit
  split <;> rfl

@[simp] theorem emit_passed (s : WasmPayloadScanner) (bytes : List UInt8) :
    (s.emit bytes).scanner.passed = s.passed ++ bytes := by
  unfold emit
  split <;> simp_all

@[simp] theorem emit_sunk (s : WasmPayloadScanner) (bytes : List UInt8) :
    (s.emit bytes).sunk.flatten = bytes := by
  unfold emit
  split <;> simp_all

variable {payload bytes : List UInt8} {s : WasmPayloadScanner} {middle : WasmPayloadScanner}
  {rest : List UInt8}

theorem pushBody_pushed {want : Nat} (mode : middle.mode = .body want)
    (declared : Declared (payload ++ bytes) want)
    (seen : (payload ++ bytes).drop wasmHeaderLen = middle.passed ++ rest)
    (same : middle.passed = s.passed) (room : middle.passed.length ≤ want) :
    Pushed payload bytes s (middle.pushBody want rest) := by
  unfold pushBody
  split
  · rename_i long
    refine ⟨⟨declared.magic, declared.complete, .inr ⟨rfl, want, declared, ?_, ?_⟩⟩, ?_,
      .inr ⟨_, rfl, rfl⟩, fun refused => by cases refused⟩
    · rw [seen, length_append]
      omega
    · rw [seen]
      exact prefix_take_iff.mpr ⟨prefix_append _ _, room⟩
    · simpa [fail] using same
  · rename_i fits
    have scanned : HasScanned (payload ++ bytes) (middle.emit rest).scanner := by
      unfold HasScanned
      simp only [emit_mode, mode, emit_passed, length_append]
      exact ⟨declared, seen.symm, by omega⟩
    refine ⟨scanned, ?_, .inl (emit_result _ _), fun _ reason => ?_⟩
    · rw [emit_passed, emit_sunk, same]
    · rw [emit_mode, mode]
      exact Mode.noConfusion

theorem pushHeaded_pushed (held : middle.held = (payload ++ bytes).take wasmHeaderLen)
    (seen : (payload ++ bytes).drop wasmHeaderLen = rest)
    (magic : (payload ++ bytes).take 4 = wasmMagicBytes)
    (complete : wasmHeaderLen ≤ (payload ++ bytes).length) (nothing : middle.passed = [])
    (before : s.passed = []) : Pushed payload bytes s (middle.pushHeaded rest) := by
  unfold pushHeaded
  cases parsed : parseHeader middle.held with
  | ok want =>
    rw [held] at parsed
    exact pushBody_pushed rfl ⟨magic, complete, parsed⟩ (by rw [seen, nothing]; rfl)
      (nothing.trans before.symm) (by rw [nothing]; exact Nat.zero_le _)
  | error reason =>
    rw [held] at parsed
    refine ⟨⟨magic, complete, .inl ⟨parsed, nothing⟩⟩, ?_, .inr ⟨_, rfl, rfl⟩,
      fun refused => by cases refused⟩
    simp [fail, nothing, before]

variable (bytes) in
theorem fill_held (held : s.held = payload) (short : payload.length < wasmHeaderLen) :
    (s.fill bytes).held = (payload ++ bytes).take wasmHeaderLen ∧
      bytes.drop (wasmHeaderLen - s.held.length) = (payload ++ bytes).drop wasmHeaderLen := by
  rw [fill, held, take_append, drop_append, take_of_length_le (Nat.le_of_lt short),
    drop_of_length_le (Nat.le_of_lt short), nil_append]
  exact ⟨rfl, rfl⟩

theorem pushBare_pushed (seen : middle.held ++ rest = payload ++ bytes)
    (nothing : middle.passed = []) (before : s.passed = [])
    (other : (payload ++ bytes).take 4 ≠ wasmMagicBytes) (long : 4 ≤ (payload ++ bytes).length) :
    Pushed payload bytes s (middle.pushBare rest) := by
  unfold pushBare
  refine ⟨?_, ?_, .inl (emit_result _ _), fun _ reason => ?_⟩
  · unfold HasScanned
    simp only [emit_mode, emit_passed, nothing, nil_append]
    exact ⟨other, long, seen⟩
  · simp [nothing, before]
  · simp

theorem push_pushed (scanned : HasScanned payload s) : Pushed payload bytes s (s.push bytes) := by
  unfold push
  unfold HasScanned at scanned
  cases mode : s.mode with
  | failed reason =>
    rw [mode] at scanned
    obtain ⟨magic, complete, refused⟩ := scanned
    refine ⟨?_, by simp, .inr ⟨reason, rfl, mode⟩, fun refused => by cases refused⟩
    unfold HasScanned
    simp only [mode]
    rw [take_append_of_le complete, take_append_of_le (Nat.le_trans (by decide) complete),
      length_append]
    refine ⟨magic, Nat.le_add_right_of_le complete, ?_⟩
    rcases refused with malformed | ⟨mismatch, want, declared, exceeds, passed⟩
    · exact .inl malformed
    · rw [drop_append_of_le_length complete]
      rw [prefix_take_iff] at passed
      refine .inr ⟨mismatch, want, declared.append, ?_, prefix_take_iff.mpr
        ⟨passed.1.trans (prefix_append _ _), passed.2⟩⟩
      rw [length_append]
      omega
  | bare =>
    rw [mode] at scanned
    obtain ⟨other, long, passed⟩ := scanned
    refine ⟨?_, by simp, .inl (emit_result _ _), fun _ reason => by simp [mode]⟩
    unfold HasScanned
    simp only [emit_mode, mode, emit_passed, passed, length_append]
    rw [take_append_of_le long]
    exact ⟨other, Nat.le_add_right_of_le long, trivial⟩
  | body want =>
    rw [mode] at scanned
    obtain ⟨declared, passed, room⟩ := scanned
    refine pushBody_pushed mode declared.append ?_ rfl room
    rw [passed, drop_append_of_le_length declared.complete]
  | undecided =>
    rw [mode] at scanned
    obtain ⟨short, held, nothing⟩ := scanned
    obtain ⟨filled, rest⟩ := fill_held bytes held (Nat.lt_trans short (by decide))
    have prefix4 : ((payload ++ bytes).take wasmHeaderLen).take 4 = (payload ++ bytes).take 4 := by
      rw [take_take]
      rfl
    have sized : ((payload ++ bytes).take wasmHeaderLen).length =
        min wasmHeaderLen (payload ++ bytes).length := length_take
    have sixtyFour : wasmHeaderLen = 64 := rfl
    simp only [rest, filled, prefix4, sized]
    split
    · rename_i few
      have whole : (payload ++ bytes).length < 4 := by omega
      refine ⟨?_, by simp [fill], .inl rfl, fun _ reason => by simp [fill, mode]⟩
      unfold HasScanned
      simp only [fill, mode]
      refine ⟨whole, ?_, nothing⟩
      show (s.fill bytes).held = payload ++ bytes
      rw [filled, take_of_length_le (by omega)]
    · rename_i several
      have long : 4 ≤ (payload ++ bytes).length := by omega
      split
      · rename_i other
        refine pushBare_pushed ?_ nothing nothing other long
        rw [filled, take_append_drop]
      · rename_i same
        have magic := Decidable.not_not.mp same
        split
        · rename_i complete
          exact pushHeaded_pushed filled rfl magic (by omega) nothing nothing
        · rename_i incomplete
          refine ⟨?_, by simp [fill], .inl rfl, fun _ reason => by simp⟩
          refine ⟨magic, by omega, ?_, nothing⟩
          show (payload ++ bytes).take wasmHeaderLen = payload ++ bytes
          rw [take_of_length_le (by omega)]
  | header =>
    rw [mode] at scanned
    obtain ⟨magic, short, held, nothing⟩ := scanned
    obtain ⟨filled, rest⟩ := fill_held bytes held short
    have extended : (payload ++ bytes).take 4 = wasmMagicBytes := by
      rw [take_append_of_le (length_of_magic magic)]
      exact magic
    have sized : ((payload ++ bytes).take wasmHeaderLen).length =
        min wasmHeaderLen (payload ++ bytes).length := length_take
    simp only [rest, filled, sized]
    split
    · rename_i complete
      exact pushHeaded_pushed filled rfl extended (by omega) nothing nothing
    · rename_i incomplete
      refine ⟨?_, by simp [fill], .inl rfl, fun _ reason => by simp [fill, mode]⟩
      unfold HasScanned
      simp only [fill, mode]
      refine ⟨extended, by omega, ?_, nothing⟩
      show (s.fill bytes).held = payload ++ bytes
      rw [filled, take_of_length_le (by omega)]

end WasmPayloadScanner

/-! ### The facts of a payload -/

inductive SplitsInto (payload : List UInt8) : Nat → List UInt8 → Prop where
  | bare (other : payload.take 4 ≠ wasmMagicBytes) : SplitsInto payload 0 payload
  | headed {want : Nat} (declared : Declared payload want)
      (sized : payload.length = wasmHeaderLen + want) :
      SplitsInto payload wasmHeaderLen (payload.drop wasmHeaderLen)

def WasmPayloadFacts.span : WasmPayloadFacts → Option ModuleSpan
  | .bare span | .headed span => some span
  | .rejected _ => none

/-- The facts of a payload, read off the whole of it. -/
def factsOf (sha256 : List UInt8 → Octets 32) (payload : List UInt8) : WasmPayloadFacts :=
  if payload.take 4 ≠ wasmMagicBytes then .bare ⟨0, payload.length, sha256 payload⟩
  else if payload.length < wasmHeaderLen then .rejected .truncatedHeader
  else
    match parseHeader (payload.take wasmHeaderLen) with
    | .error reason => .rejected reason
    | .ok want =>
      if payload.length = wasmHeaderLen + want then
        .headed ⟨wasmHeaderLen, want, sha256 (payload.drop wasmHeaderLen)⟩
      else .rejected .lengthMismatch

section Cuts

variable {sha256 : List UInt8 → Octets 32} {payload : List UInt8} {s : WasmPayloadScanner}

theorem factsOf_declared {want : Nat} (declared : Declared payload want) :
    factsOf sha256 payload = if payload.length = wasmHeaderLen + want then
      .headed ⟨wasmHeaderLen, want, sha256 (payload.drop wasmHeaderLen)⟩
      else .rejected .lengthMismatch := by
  rw [factsOf, if_neg (not_not.mpr declared.magic), if_neg (Nat.not_lt.mpr declared.complete),
    declared.parsed]

theorem factsOf_cases :
    (payload.take 4 ≠ wasmMagicBytes ∧
        factsOf sha256 payload = .bare ⟨0, payload.length, sha256 payload⟩) ∨
      (∃ reason, factsOf sha256 payload = .rejected reason) ∨
      ∃ want, Declared payload want ∧ payload.length = wasmHeaderLen + want ∧
        factsOf sha256 payload =
          .headed ⟨wasmHeaderLen, want, sha256 (payload.drop wasmHeaderLen)⟩ := by
  unfold factsOf
  split_ifs with other short
  · exact .inl ⟨other, rfl⟩
  · exact .inr (.inl ⟨_, rfl⟩)
  · split
    · exact .inr (.inl ⟨_, rfl⟩)
    · rename_i want parsed
      split_ifs with exactly
      · exact .inr (.inr ⟨want, ⟨not_not.mp other, Nat.not_lt.mp short, parsed⟩, exactly, rfl⟩)
      · exact .inr (.inl ⟨_, rfl⟩)

theorem finish_spec (scanned : HasScanned payload s) :
    (s.finish sha256).1 = factsOf sha256 payload ∧
      ∀ span, (factsOf sha256 payload).span = some span →
        s.passed ++ (s.finish sha256).2.flatten = payload.drop span.offset := by
  unfold HasScanned at scanned
  unfold WasmPayloadScanner.finish
  cases mode : s.mode <;> rw [mode] at scanned
  case undecided =>
    obtain ⟨short, held, nothing⟩ := scanned
    have other : payload.take 4 ≠ wasmMagicBytes := fun magic =>
      absurd (length_of_magic magic) (Nat.not_le.mpr short)
    rw [factsOf, if_pos other]
    simp [WasmPayloadFacts.span, held, nothing]
  case bare =>
    obtain ⟨other, _, passed⟩ := scanned
    rw [factsOf, if_pos other, passed]
    simp [WasmPayloadFacts.span]
  case header =>
    obtain ⟨magic, short, _⟩ := scanned
    rw [factsOf, if_neg (not_not.mpr magic), if_pos short]
    simp [WasmPayloadFacts.span]
  case body want =>
    obtain ⟨declared, passed, _⟩ := scanned
    have sized : s.passed.length = want ↔ payload.length = wasmHeaderLen + want := by
      rw [passed, length_drop]
      have complete := declared.complete
      omega
    rw [factsOf_declared declared]
    dsimp only
    by_cases exactly : payload.length = wasmHeaderLen + want
    · rw [if_pos exactly, if_pos (sized.mpr exactly), sized.mpr exactly, passed]
      simp [WasmPayloadFacts.span]
    · rw [if_neg exactly, if_neg fun same => exactly (sized.mp same)]
      simp [WasmPayloadFacts.span]
  case failed reason =>
    obtain ⟨magic, complete, ⟨malformed, _⟩ | ⟨rfl, want, declared, exceeds, _⟩⟩ := scanned
    · rw [factsOf, if_neg (not_not.mpr magic), if_neg (Nat.not_lt.mpr complete), malformed]
      simp [WasmPayloadFacts.span]
    · rw [length_drop] at exceeds
      rw [factsOf_declared declared, if_neg (by omega)]
      simp [WasmPayloadFacts.span]

theorem pushAll_spec {pieces : List (List UInt8)} (scanned : HasScanned payload s) :
    HasScanned (payload ++ pieces.flatten) (s.pushAll pieces).1 ∧
      (s.pushAll pieces).1.passed = s.passed ++ (s.pushAll pieces).2.flatten := by
  induction pieces generalizing payload s with
  | nil => simpa [WasmPayloadScanner.pushAll] using scanned
  | cons piece rest ih =>
    have pushed : Pushed payload piece s (s.push piece) := WasmPayloadScanner.push_pushed scanned
    obtain ⟨after, passed⟩ := ih pushed.scanned
    rw [append_assoc] at after
    refine ⟨after, passed.trans ?_⟩
    rw [pushed.passed, append_assoc, ← flatten_append]
    rfl

theorem scanPayload_eq (sha256 : List UInt8 → Octets 32) (payload : List UInt8) :
    scanPayload sha256 payload = factsOf sha256 payload ∧
      splitWasmPayload sha256 payload = match factsOf sha256 payload with
        | .bare _ => .ok payload
        | .headed span => .ok (payload.drop span.offset)
        | .rejected reason => .error reason := by
  have pushed : Pushed [] payload .new (WasmPayloadScanner.new.push payload) :=
    WasmPayloadScanner.push_pushed WasmPayloadScanner.scanned_new
  have facts := (@finish_spec sha256 _ _ pushed.scanned).1
  rw [nil_append] at facts
  unfold scanPayload splitWasmPayload
  dsimp only
  rcases pushed.result with accepted | ⟨reason, refused, failed⟩
  · rw [accepted, facts]
    exact ⟨rfl, rfl⟩
  · rw [refused, ← facts, WasmPayloadScanner.finish, failed]
    exact ⟨rfl, rfl⟩

theorem scanPayload_spec {span : ModuleSpan} (found : (scanPayload sha256 payload).span = some span) :
    ∃ module, SplitsInto payload span.offset module ∧ span.len = module.length ∧
      span.sha256 = sha256 module := by
  rw [(scanPayload_eq sha256 payload).1] at found
  rcases @factsOf_cases sha256 payload with ⟨other, facts⟩ | ⟨_, facts⟩ |
    ⟨want, declared, sized, facts⟩ <;> rw [facts] at found <;> cases found
  · exact ⟨payload, .bare other, rfl, rfl⟩
  · refine ⟨_, .headed declared sized, ?_, rfl⟩
    rw [length_drop]
    exact (Nat.sub_eq_of_eq_add' sized).symm

theorem clean_sink (scanned : HasScanned payload s) (magic : payload.take 4 = wasmMagicBytes) :
    s.passed ++ (s.finish sha256).2.flatten = [] ∨ ∃ want, Declared payload want ∧
      s.passed ++ (s.finish sha256).2.flatten <+: (payload.drop wasmHeaderLen).take want := by
  unfold HasScanned at scanned
  unfold WasmPayloadScanner.finish
  cases mode : s.mode <;> rw [mode] at scanned
  case undecided => exact absurd (length_of_magic magic) (Nat.not_le.mpr scanned.1)
  case bare => exact absurd magic scanned.1
  case header => exact .inl (by simp [scanned.2.2.2])
  case body want =>
    refine .inr ⟨want, scanned.1, ?_⟩
    dsimp only
    rw [← scanned.2.1, take_of_length_le scanned.2.2]
    simp only [apply_ite Prod.snd, ite_self, flatten_nil, append_nil, prefix_rfl]
  case failed reason =>
    rcases scanned.2.2 with ⟨_, nothing⟩ | ⟨_, want, declared, _, passed⟩
    · exact .inl (by simp [nothing])
    · exact .inr ⟨want, declared, by simpa using passed⟩

end Cuts

/-- What holds of a payload that is pushed in pieces: `facts` is what `finish` returns, `sunk`
what the sink was handed. -/
structure CutIndependent (sha256 : List UInt8 → Octets 32) (payload : List UInt8)
    (facts : WasmPayloadFacts) (sunk : List UInt8) : Prop where
  whole : facts = scanPayload sha256 payload
  module : ∀ span, facts.span = some span → sunk = (payload.drop span.offset).take span.len ∧
    span.sha256 = sha256 sunk ∧ splitWasmPayload sha256 payload = .ok sunk
  headed : ∀ span, facts = .headed span → span.offset = wasmHeaderLen ∧
    Declared payload span.len ∧ payload.length = wasmHeaderLen + span.len
  clean : payload.take 4 = wasmMagicBytes → sunk = [] ∨ ∃ want, Declared payload want ∧
    sunk <+: (payload.drop wasmHeaderLen).take want

theorem scanner_cutIndependent (sha256 : List UInt8 → Octets 32) (pieces : List (List UInt8)) :
    CutIndependent sha256 pieces.flatten
      ((WasmPayloadScanner.new.pushAll pieces).1.finish sha256).1
      ((WasmPayloadScanner.new.pushAll pieces).2.flatten ++
        ((WasmPayloadScanner.new.pushAll pieces).1.finish sha256).2.flatten) := by
  obtain ⟨scanned, passed⟩ := @pushAll_spec [] .new pieces WasmPayloadScanner.scanned_new
  rw [List.nil_append] at scanned
  change _ = [] ++ _ at passed
  rw [List.nil_append] at passed
  rw [← passed]
  generalize (WasmPayloadScanner.new.pushAll pieces).1 = s at scanned
  generalize pieces.flatten = payload at scanned
  obtain ⟨whole, split⟩ := scanPayload_eq sha256 payload
  obtain ⟨facts, sunk⟩ := @finish_spec sha256 payload s scanned
  constructor
  case whole => rw [facts, whole]
  case module =>
    intro span found
    rw [facts] at found
    rw [sunk span found, split]
    rcases @factsOf_cases sha256 payload with ⟨_, same⟩ | ⟨_, same⟩ | ⟨want, _, sized, same⟩ <;>
      rw [same] at found ⊢ <;> cases found
    · exact ⟨List.take_length.symm, rfl, rfl⟩
    · refine ⟨(List.take_of_length_le ?_).symm, rfl, rfl⟩
      rw [List.length_drop]
      exact (Nat.sub_eq_of_eq_add' sized).le
  case headed =>
    intro span headed
    rw [facts] at headed
    rcases @factsOf_cases sha256 payload with ⟨_, same⟩ | ⟨_, same⟩ |
      ⟨want, declared, sized, same⟩ <;> rw [same] at headed <;> cases headed
    exact ⟨rfl, declared, sized⟩
  case clean => exact clean_sink scanned

end Rvm.Rvf
