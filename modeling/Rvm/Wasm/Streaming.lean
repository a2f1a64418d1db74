import Rvm.Foundation.Bytes
import Rvm.Foundation.Call
import Rvm.Types.Basic
import Rvm.Types.Capability

/-!
Owns the validation of a module that arrives in pieces: the module policy
(`rvm-wasm/src/module_policy.rs`) and the streaming validator
(`rvm-wasm/src/streaming.rs`). The parser and the validator of `wasmparser` are parameters,
with the contract that the parser documents. The allocations that one function validator
hands to the next are left out. A slice out of range is a panic.
-/

namespace Rvm.Wasm

open Foundation Foundation.Call

inductive Limit where
  | moduleBytes | sectionBytes | functionBodyBytes | locals | types | imports | exports
  | functions | memoryPages | tableElements | globals | dataSegments | elementSegments
deriving DecidableEq, Repr

inductive ImportKind where
  | func | table | memory | global | tag
deriving DecidableEq, Repr

structure ImportRef where
  module : String
  name : String
  kind : ImportKind
deriving DecidableEq, Repr

/-- One allowlist entry; without a name, every field of the module. -/
structure AllowedImport where
  module : String
  name : Option String
deriving DecidableEq, Repr

inductive ImportPolicy where
  | allowAll
  | denyAll
  | allowlist (list : List AllowedImport)
  | predicate (allowed : ImportRef → Bool)

def ImportPolicy.allows (policy : ImportPolicy) (imported : ImportRef) : Bool :=
  match policy with
  | .allowAll => true
  | .denyAll => false
  | .allowlist list => list.any fun entry =>
    entry.module == imported.module && entry.name.all (· == imported.name)
  | .predicate allowed => allowed imported

structure ModulePolicy where
  maxModuleBytes : Nat
  maxSectionBytes : Nat
  maxFunctionBodyBytes : Nat
  maxLocals : Nat
  maxTypes : Nat
  maxImports : Nat
  maxExports : Nat
  maxFunctions : Nat
  maxMemoryPages : Nat
  imports : ImportPolicy
  maxTableElements : Nat
  maxGlobals : Nat
  maxDataSegments : Nat
  maxElementSegments : Nat

/-- The conservative backstop limits. -/
def ModulePolicy.default : ModulePolicy where
  maxModuleBytes := 1024 * 1024
  maxSectionBytes := 1024 * 1024
  maxFunctionBodyBytes := 256 * 1024
  maxLocals := 4096
  maxTypes := 10000
  maxImports := 1024
  maxExports := 1024
  maxFunctions := 50000
  maxMemoryPages := 1024
  imports := .denyAll
  maxTableElements := 65536
  maxGlobals := 10000
  maxDataSegments := 10000
  maxElementSegments := 10000

inductive ModuleError where
  | invalid (offset : Nat) (message : String)
  | truncated
  | limitExceeded (limit : Limit)
  | forbiddenImport (index : Nat)
  | notACoreModule
deriving DecidableEq, Repr

structure ReaderError where
  offset : Nat
  message : String
deriving DecidableEq, Repr

structure MemoryType where
  maximum : Option Nat
  memory64 : Bool

inductive TypeRef where
  | func | funcExact
  | table (initial : Nat)
  | memory (memory : MemoryType)
  | global | tag

structure Import where
  module : String
  name : String
  ty : TypeRef

inductive Encoding where
  | module | component
deriving DecidableEq, Repr

inductive PayloadKind where
  | version (encoding : Encoding)
  | typeSection (count : Nat)
  | importSection (count : Nat) (imports : List (Except ReaderError Import))
  | globalSection (count : Nat)
  | dataSection (count : Nat)
  | elementSection (count : Nat)
  | tableSection (initials : List (Except ReaderError Nat))
  | exportSection (count : Nat)
  | functionSection (count : Nat)
  | memorySection (memories : List (Except ReaderError MemoryType))
  | codeSectionStart (count : Nat)
  | codeSectionEntry (rangeLen : Nat) (locals : Except ReaderError (List (Except ReaderError Nat)))
  | «end»
  | other

inductive Chunk (Parser Payload : Type) where
  | needMoreData (parser : Parser) (need : Nat)
  | parsed (parser : Parser) (consumed : Nat) (payload : Payload)

/-- The validator's answer; for a function body, with what validating it gives. -/
inductive ValidPayload where
  | ok | parser
  | func (check : Except ReaderError Unit)
  | «end»

structure Wasmparser where
  Parser : Type
  Validator : Type
  Payload : Type
  start : Parser
  fresh : Validator
  parse : Parser → List UInt8 → Bool → Except ReaderError (Chunk Parser Payload)
  kind : Payload → PayloadKind
  /-- `Payload::as_section`: the id of a section and how many bytes its range has. -/
  asSection : Payload → Option (Nat × Nat)
  validate : Validator → Payload → Except ReaderError (ValidPayload × Validator)

/-- The parser's contract. On a prefix it returns the payload that it returns on the whole
input, or asks for more bytes (one at least, and no more than the item lacks) and then parses
on like the parser that was asked. -/
structure Wasmparser.Incremental (w : Wasmparser) : Prop where
  parsed : ∀ {parser data next size payload},
    w.parse parser data false = .ok (.parsed next size payload) →
    0 < size ∧ size ≤ data.length ∧
      ∀ rest, w.parse parser (data ++ rest) true = .ok (.parsed next size payload)
  asked : ∀ {parser data next need},
    w.parse parser data false = .ok (.needMoreData next need) →
    w.parse next = w.parse parser ∧ 1 ≤ need ∧
      ∀ rest after size payload,
        w.parse parser (data ++ rest) true = .ok (.parsed after size payload) →
        need ≤ max 1 (size - data.length) ∧ (data.length < size ∨ data ++ rest = [])
  failed : ∀ {parser data e}, w.parse parser data false = .error e →
    ∀ rest, ∃ e, w.parse parser (data ++ rest) true = .error e
  /-- At the end of the input only the end is left, and it is found nowhere else. -/
  whole : ∀ {parser data next size payload},
    w.parse parser data true = .ok (.parsed next size payload) →
    size ≤ data.length ∧ (data ≠ [] → 0 < size) ∧ (w.kind payload = .end ↔ data = [])
  /-- The validator ends a module at its end. -/
  ended : ∀ {validator payload answer next},
    w.validate validator payload = .ok (answer, next) →
    (answer = .end ↔ w.kind payload = .end)

variable {w : Wasmparser}

def headerSlack : Nat := 8

/-- A memory without a declared maximum may grow to this many pages. -/
def unboundedMemoryPages : Nat := 65536

def conv (e : ReaderError) : ModuleError := .invalid e.offset e.message

structure ValidatedModule where
  byteLen : Nat
  typeCount : Nat
  importCount : Nat
  exportCount : Nat
  functionCount : Nat
deriving DecidableEq, Repr

/-- How far the parse of some bytes went. -/
structure Progress where
  consumed : Nat
  need : Nat
  ended : Bool

/-- Parser, validator and counters: everything but the byte buffer. -/
structure Core (w : Wasmparser) where
  policy : ModulePolicy
  parser : w.Parser
  validator : w.Validator
  consumedTotal : Nat
  codeRemaining : Nat
  functionsValidated : Nat
  importsChecked : Bool
  types : Nat
  imports : Nat
  exports : Nat
  functions : Nat

namespace Core

abbrev CoreCall (w : Wasmparser) (α : Type) := Call ModuleError (Core w) α

def new (w : Wasmparser) (policy : ModulePolicy) : Core w :=
  ⟨policy, w.start, w.fresh, 0, 0, 0, false, 0, 0, 0, 0⟩

/-- Largest number of bytes that may be buffered for the item the parser is working on. -/
def bufferLimit (core : Core w) : Nat × Limit :=
  if core.codeRemaining > 0 then
    (saturatingAdd64 core.policy.maxFunctionBodyBytes headerSlack, .functionBodyBytes)
  else
    (saturatingAdd64 core.policy.maxSectionBytes headerSlack, .sectionBytes)

/-- The `?` on a result of the parser or the validator. -/
def converted {α : Type} (result : Except ReaderError α) : CoreCall w α :=
  orRefusal (result.mapError conv)

def overLimit (count max : Nat) (limit : Limit) : CoreCall w Unit :=
  throwIf (count > max) (.limitExceeded limit)

def checkTable (initial : Nat) : CoreCall w Unit := do
  let core ← get
  throwIf (initial > core.policy.maxTableElements) (.limitExceeded .tableElements)

def effectivePages (memory : MemoryType) : Nat :=
  match memory.maximum with
  | some max => max
  | none => if memory.memory64 then u64Max else unboundedMemoryPages

def checkMemory (memory : MemoryType) : CoreCall w Unit := do
  let core ← get
  throwIf (effectivePages memory > core.policy.maxMemoryPages) (.limitExceeded .memoryPages)

def addLocals (total : Nat) (run : Except ReaderError Nat) : CoreCall w Nat := do
  let count ← converted run
  let total := min (total + count) u32Max
  overLimit total (← get).policy.maxLocals .locals
  return total

/-- Cheap count limits first, before wasmparser walks the section. -/
def precheck (kind : PayloadKind) : CoreCall w Unit := do
  let core ← get
  match kind with
  | .version encoding => throwIf (encoding ≠ .module) .notACoreModule
  | .typeSection count => do
      set { core with types := count }
      overLimit count core.policy.maxTypes .types
  | .importSection count _ => do
      set { core with imports := count }
      overLimit count core.policy.maxImports .imports
  | .globalSection count => overLimit count core.policy.maxGlobals .globals
  | .dataSection count => overLimit count core.policy.maxDataSegments .dataSegments
  | .elementSection count => overLimit count core.policy.maxElementSegments .elementSegments
  | .tableSection initials =>
    initials.forM fun initial => do checkTable (← converted initial)
  | .exportSection count => do
      set { core with exports := count }
      overLimit count core.policy.maxExports .exports
  | .functionSection count => do
      set { core with functions := count }
      overLimit count core.policy.maxFunctions .functions
  | .codeSectionStart count => do
      overLimit count core.policy.maxFunctions .functions
      set { core with codeRemaining := count }
  | .codeSectionEntry rangeLen locals => do
      set { core with codeRemaining := core.codeRemaining - 1 }
      throwIf (rangeLen > core.policy.maxFunctionBodyBytes) (.limitExceeded .functionBodyBytes)
      let runs ← converted locals
      let _ ← runs.foldlM addLocals 0
      return ()
  | _ => return ()

def kindOf (ty : TypeRef) : CoreCall w ImportKind :=
  match ty with
  | .func | .funcExact => return .func
  | .table initial => do
      checkTable initial
      return .table
  | .memory memory => do
      checkMemory memory
      return .memory
  | .global => return .global
  | .tag => return .tag

def checkImport (listed : Except ReaderError Import × Nat) : CoreCall w Unit := do
  let imp ← converted listed.1
  let kind ← kindOf imp.ty
  let core ← get
  throwIf (core.policy.imports.allows ⟨imp.module, imp.name, kind⟩ = false)
    (.forbiddenImport (asU32 listed.2))

def checkContent (kind : PayloadKind) : CoreCall w Unit :=
  match kind with
  | .importSection _ imports => do
      imports.zipIdx.forM checkImport
      modify fun core => { core with importsChecked := true }
  | .memorySection memories => memories.forM fun memory => do checkMemory (← converted memory)
  | _ => return ()

/-- Section size is enforced on the parsed section; code is bounded per body. -/
def checkSection (asSection : Option (Nat × Nat)) : CoreCall w Unit := do
  let core ← get
  throwIf (∃ found ∈ asSection, found.1 ≠ 10 ∧ found.2 > core.policy.maxSectionBytes)
    (.limitExceeded .sectionBytes)

/-- What follows the validator's answer. Returns `true` when the module has ended. The count
of functions wraps as in a build without overflow checks. -/
def checkAnswer (kind : PayloadKind) (answer : ValidPayload) : CoreCall w Bool :=
  match answer with
  | .end => return true
  | .func check => do
      converted check
      modify fun core => { core with functionsValidated := asU32 (core.functionsValidated + 1) }
      checkContent kind
      return false
  | .ok | .parser => do
      checkContent kind
      return false

/-- Returns `true` when the module has ended. -/
def handle (payload : w.Payload) : CoreCall w Bool := do
  checkSection (w.asSection payload)
  precheck (w.kind payload)
  let core ← get
  let (answer, validator) ← converted (w.validate core.validator payload)
  set { core with validator := validator }
  checkAnswer (w.kind payload) answer

def advance (core : Core w) (consumed : Nat) : Core w :=
  { core with consumedTotal := asU64 (core.consumedTotal + consumed) }

/-- The loop of `run`, from a position on. Every item but the end takes a byte at least, so
that a round for each byte and two more are enough. -/
def runFrom (data : List UInt8) (eof : Bool) : Nat → Nat → CoreCall w Progress
  | 0, _ => orPanic none
  | rounds + 1, pos => do
      let core ← get
      let rest ← orPanic (sliceAt data pos data.length)
      match ← converted (w.parse core.parser rest eof) with
      | .needMoreData parser need => do
          set { core with parser := parser }
          throwIf (eof = true) .truncated
          return ⟨pos, need, false⟩
      | .parsed parser consumed payload => do
          set { core with parser := parser }
          let ended ← handle payload
          modify fun core => core.advance consumed
          if ended then return ⟨pos + consumed, 0, true⟩
          else runFrom data eof rounds (pos + consumed)

def run (data : List UInt8) (eof : Bool) : CoreCall w Progress :=
  runFrom data eof (data.length + 2) 0

/-- The test of `check_wait`: why the policy would never allow a wait. -/
def refusedWait (core : Core w) (remaining need : Nat) : Option Limit :=
  let total := saturatingAdd64 remaining need
  if saturatingAdd64 core.consumedTotal total > core.policy.maxModuleBytes then
    some .moduleBytes
  else if total > core.bufferLimit.1 then
    some core.bufferLimit.2
  else none

end Core

/-- What a push reports. -/
structure ValidatorProgress where
  bytesReceived : Nat
  bytesParsed : Nat
  bytesBuffered : Nat
  functionsValidated : Nat
  importsChecked : Bool
deriving DecidableEq, Repr

structure StreamingModuleValidator (w : Wasmparser) where
  core : Core w
  buf : List UInt8
  /-- The length of the buffer at which parsing is worth retrying. -/
  needLen : Nat
  received : Nat
  failed : Option ModuleError

namespace StreamingModuleValidator

abbrev ValidatorCall (w : Wasmparser) (α : Type) :=
  Call ModuleError (StreamingModuleValidator w) α

def new (w : Wasmparser) (policy : ModulePolicy) : StreamingModuleValidator w :=
  ⟨.new w policy, [], 0, 0, none⟩

def progress (v : StreamingModuleValidator w) : ValidatorProgress where
  bytesReceived := v.received
  bytesParsed := v.core.consumedTotal
  bytesBuffered := v.buf.length
  functionsValidated := v.core.functionsValidated
  importsChecked := v.core.importsChecked

/-- A call of the core. -/
def onCore {α : Type} (call : Core.CoreCall w α) : ValidatorCall w α :=
  onPart core (fun v core => { v with core := core }) call

/-- Refuse a wait the policy would never allow, before buffering for it. -/
def checkWait (remaining need : Nat) : ValidatorCall w Unit := do
  match (← get).core.refusedWait remaining need with
  | some limit => throw (.limitExceeded limit)
  | none => return ()

/-- Parse straight from the caller's slice; copy only the tail. -/
def pushDirect (input : List UInt8) : ValidatorCall w Unit := do
  let run ← onCore (Core.run input false)
  let input ← orPanic (sliceAt input run.consumed input.length)
  if input = [] then
    return ()
  else
    checkWait input.length run.need
    modify fun v => { v with
      needLen := saturatingAdd64 input.length run.need
      buf := input }

/-- How many bytes of the input go to a buffer that is not empty. -/
def takeLen (v : StreamingModuleValidator w) (input : List UInt8) : Nat :=
  min (max (v.needLen - v.buf.length) 1) input.length

/-- Parse from the buffer, when it has what the parser asked for. -/
def pushBuffered (input : List UInt8) : ValidatorCall w Unit := do
  let v ← get
  let buf := v.buf ++ input.take (v.takeLen input)
  set { v with buf := buf }
  if buf.length < v.needLen then
    return ()
  else
    let run ← onCore (Core.run buf false)
    let rest ← orPanic (sliceAt buf run.consumed buf.length)
    modify fun v => { v with buf := rest }
    checkWait rest.length run.need
    modify fun v => { v with needLen := saturatingAdd64 rest.length run.need }

/-- The loop of `push_inner`. A round takes a byte at least, so that a round for each is
enough. -/
def pushRounds : Nat → List UInt8 → ValidatorCall w Unit
  | _, [] => return ()
  | 0, _ => orPanic none
  | rounds + 1, input => do
      let v ← get
      if v.buf = [] then
        pushDirect input
      else
        pushBuffered input
        pushRounds rounds (input.drop (v.takeLen input))

def pushInner (input : List UInt8) : ValidatorCall w Unit := do
  let v ← get
  let total := saturatingAdd64 v.received input.length
  throwIf (total > v.core.policy.maxModuleBytes) (.limitExceeded .moduleBytes)
  set { v with received := total }
  pushRounds input.length input

/-- Feed the next chunk. After an error every later call returns the same error. -/
def push (bytes : List UInt8) : ValidatorCall w ValidatorProgress := do
  match (← get).failed with
  | some e => throw e
  | none => do
      match ← attempt (pushInner bytes) with
      | .ok _ => return (← get).progress
      | .error e => refuse e fun v => { v with failed := some e, buf := [] }

/-- Signal end of input and run the whole-module checks. -/
def finish : ValidatorCall w ValidatedModule := do
  let v ← get
  match v.failed with
  | some e => throw e
  | none => do
      let run ← onCore (Core.run v.buf true)
      throwIf (run.ended = false ∨ run.consumed ≠ v.buf.length) .truncated
      let core := (← get).core
      return ⟨v.received, core.types, core.imports, core.exports, core.functionsValidated⟩

def pushAll (pieces : List (List UInt8)) : ValidatorCall w Unit :=
  pieces.forM fun piece => do
    let _ ← attempt (push piece)

def verdict (w : Wasmparser) (policy : ModulePolicy) (pieces : List (List UInt8)) :
    Option (Except ModuleError ValidatedModule) :=
  (Call.runFrom (do
    pushAll pieces
    finish) (new w policy)).map Prod.fst

end StreamingModuleValidator

end Rvm.Wasm
