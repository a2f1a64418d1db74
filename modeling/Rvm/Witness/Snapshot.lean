import Rvm.Foundation.Ring
import Rvm.Witness.Replay

/-!
Owns checkpoint-relative export (`snapshot_since` of `rvm-witness/src/log.rs`). The
conversions between `u64` and `usize` cannot fail on a 64-bit target and are left out.
Sequence numbers wrap after `2^64` records.
-/

namespace Rvm.Witness

open Foundation List WitnessLog

/-! ### Taking a snapshot -/

structure WitnessSnapshot where
  count : Nat
  endCheckpoint : WitnessCheckpoint
deriving DecidableEq, Repr

/-- Why a checkpoint-relative snapshot could not be produced. -/
inductive SnapshotSinceError where
  | futureCheckpoint
  | recordsOverwritten
  | outputTooSmall (required : Nat)
  | sequenceMismatch
deriving DecidableEq, Repr

namespace WitnessLog

/-- The copy loop over the output slots that remain; a mismatch leaves the slots
before it overwritten. -/
def copySince (N : Nat) (log : WitnessLog) (nextSequence : Nat) :
    Nat → Nat → List WitnessRecord → Except SnapshotSinceError Unit × List WitnessRecord
  | _, 0, out => (.ok (), out)
  | _, _ + 1, [] => (.ok (), [])
  | offset, remaining + 1, slot :: rest =>
    let sequence := nextSequence + offset
    if 18446744073709551616 ≤ sequence then (.error .sequenceMismatch, slot :: rest)
    else
      let record := log.records (sequence % N)
      if record.sequence ≠ sequence then (.error .sequenceMismatch, slot :: rest)
      else
        let copied := copySince N log nextSequence (offset + 1) remaining rest
        (copied.1, record :: copied.2)

/-- Returns the snapshot and what it leaves in the output slots. -/
def snapshotSince (N : Nat) (log : WitnessLog) (checkpoint : WitnessCheckpoint)
    (out : List WitnessRecord) :
    Except SnapshotSinceError WitnessSnapshot × List WitnessRecord :=
  if checkpoint.nextSequence > log.sequence then (.error .futureCheckpoint, out)
  else
    let retainedStart := log.sequence - N
    if checkpoint.nextSequence < retainedStart then (.error .recordsOverwritten, out)
    else
      let required := log.sequence - checkpoint.nextSequence
      if out.length < required then (.error (.outputTooSmall required), out)
      else
        let copied := log.copySince N checkpoint.nextSequence 0 required out
        (copied.1.map fun _ => ⟨required, log.checkpoint⟩, copied.2)

end WitnessLog

/-! ### The log and its history -/

namespace WitnessLog

variable {N : Nat} {hasher : ChainHasher} {log : WitnessLog} {history : List WitnessRecord}

structure Logged (N : Nat) (log : WitnessLog) (history : List WitnessRecord) : Prop where
  sequence : log.sequence = history.length
  position : log.writePos = history.length % N
  numbered : ∀ i (record : WitnessRecord), history[i]? = some record → record.sequence = i
  retains : Ring.Retains N log.records history

theorem logged_new : Logged N new [] where
  sequence := rfl
  position := (Nat.zero_mod N).symm
  numbered i record held := by cases held
  retains := Ring.retains_nil N _

theorem Logged.apply (logged : Logged N log history) (call : WitnessCall)
    (fits : history.length + 1 < 18446744073709551616) :
    Logged N (log.apply N hasher call) (history ++ [log.emits hasher call]) := by
  rw [apply_eq_store]
  constructor
  · rw [length_append, length_singleton, store, logged.sequence]
    exact Nat.mod_eq_of_lt fits
  · rw [length_append, length_singleton, store, logged.position, Nat.mod_add_mod]
  · intro i record held
    by_cases last : i = history.length
    · rw [last, List.getElem?_concat_length] at held
      rw [← Option.some.inj held, emits_sequence, logged.sequence, last]
    · have below := (List.getElem?_eq_some_iff.mp held).1
      rw [length_append, length_singleton] at below
      rw [List.getElem?_append_left (by omega)] at held
      exact logged.numbered i record held
  · rw [store, logged.position]
    exact logged.retains.push _

theorem produced_length (calls : List WitnessCall) :
    (log.produced N hasher calls).length = calls.length := by
  induction calls generalizing log with
  | nil => rfl
  | cons call rest ih =>
    rw [produced, length_cons, length_cons, ih]

theorem produced_append (first second : List WitnessCall) :
    log.produced N hasher (first ++ second) =
      log.produced N hasher first ++ (log.run N hasher first).produced N hasher second := by
  induction first generalizing log with
  | nil => rfl
  | cons call rest ih =>
    rw [cons_append, produced, produced, ih, cons_append]
    rfl

theorem run_append (first second : List WitnessCall) :
    log.run N hasher (first ++ second) = (log.run N hasher first).run N hasher second :=
  foldl_append

theorem written_run (log : WitnessLog) (calls : List WitnessCall) :
    (log.run N hasher calls).written = log.written + calls.length := by
  induction calls generalizing log with
  | nil => rfl
  | cons call rest ih =>
    have counted : (log.apply N hasher call).written = log.written + 1 := by
      rw [apply_eq_store]
      rfl
    show ((log.apply N hasher call).run N hasher rest).written = _
    rw [ih, counted, length_cons]
    omega

theorem totalEmitted_run (calls : List WitnessCall) :
    (new.run N hasher calls).totalEmitted = asU64 calls.length := by
  induction calls using List.reverseRecOn with
  | nil => rfl
  | append_singleton calls call ih =>
    rw [run_append, length_append]
    change ((new.run N hasher calls).apply N hasher call).totalEmitted = _
    rw [apply_eq_store, store, ih]
    exact Nat.mod_add_mod calls.length 18446744073709551616 1

theorem Logged.run (logged : Logged N log history) (calls : List WitnessCall)
    (fits : history.length + calls.length < 18446744073709551616) :
    Logged N (log.run N hasher calls) (history ++ log.produced N hasher calls) := by
  induction calls generalizing log history with
  | nil =>
    rw [produced, append_nil]
    exact logged
  | cons call rest ih =>
    rw [length_cons] at fits
    have stored : Logged N (log.apply N hasher call) _ := logged.apply call (by omega)
    have later := ih stored (by
      rw [length_append, length_singleton]
      omega)
    rw [append_assoc, singleton_append] at later
    exact later

theorem logged_produced (calls : List WitnessCall) (fits : calls.length < 18446744073709551616) :
    Logged N (new.run N hasher calls) (new.produced N hasher calls) := by
  have run : Logged N (new.run N hasher calls) _ :=
    logged_new.run calls (by rw [length_nil]; omega)
  exact run

/-! ### What a snapshot returns -/

theorem Logged.copySince (logged : Logged N log history) (small : history.length < 18446744073709551616)
    (start remaining offset : Nat) (out : List WitnessRecord)
    (covers : start + offset + remaining = history.length)
    (recent : history.length ≤ start + offset + N) (room : remaining ≤ out.length) :
    log.copySince N start offset remaining out =
      (.ok (), history.drop (start + offset) ++ out.drop remaining) := by
  induction remaining generalizing offset out with
  | zero =>
    rw [WitnessLog.copySince, drop_zero, drop_eq_nil_of_le (by omega), nil_append]
  | succ remaining ih =>
    cases out with
    | nil => cases room
    | cons slot rest =>
      rw [length_cons] at room
      have below : start + offset < history.length := by omega
      have held := logged.retains (start + offset) below recent
      have rest := ih (offset + 1) rest (by omega) (by omega) (by omega)
      obtain ⟨inside, getElem⟩ := List.getElem?_eq_some_iff.mp held
      rw [WitnessLog.copySince]
      dsimp only
      rw [if_neg (by omega), if_neg (not_not.mpr (logged.numbered _ _ held)), rest,
        drop_eq_getElem_cons inside, getElem]
      rfl

theorem Logged.snapshotSince (logged : Logged N log history)
    (small : history.length < 18446744073709551616) {checkpoint : WitnessCheckpoint}
    (past : checkpoint.nextSequence ≤ history.length) (out : List WitnessRecord) :
    log.snapshotSince N checkpoint out =
      if history.length - checkpoint.nextSequence > N then (.error .recordsOverwritten, out)
      else if out.length < history.length - checkpoint.nextSequence then
        (.error (.outputTooSmall (history.length - checkpoint.nextSequence)), out)
      else
        (.ok ⟨history.length - checkpoint.nextSequence, log.checkpoint⟩,
          history.drop checkpoint.nextSequence ++
            out.drop (history.length - checkpoint.nextSequence)) := by
  rw [WitnessLog.snapshotSince]
  dsimp only
  rw [logged.sequence, if_neg (Nat.not_lt.mpr past)]
  by_cases overwritten : history.length - checkpoint.nextSequence > N
  · rw [if_pos overwritten, if_pos (by omega)]
  · rw [if_neg overwritten, if_neg (by omega)]
    split
    · rfl
    · rename_i room
      rw [logged.copySince small checkpoint.nextSequence _ 0 out (by omega) (by omega) (by omega)]
      rfl

theorem Logged.overwritten (logged : Logged N log history) {start : Nat}
    (far : history.length - start > N) :
    ∃ record ∈ history.drop start, ∀ i, i < N → log.records i ≠ record := by
  have inside : start < history.length := by omega
  refine ⟨history[start], ?_, fun cell below same => ?_⟩
  · rw [drop_eq_getElem_cons inside]
    exact mem_cons_self
  · obtain ⟨i, _, recent, held⟩ := logged.retains.recent (by omega) below
    have number := logged.numbered i _ held
    rw [same, logged.numbered start _ (List.getElem?_eq_getElem inside)] at number
    omega

theorem Logged.retained (logged : Logged N log history) (positive : 0 < N) {start : Nat}
    (near : history.length - start ≤ N) {record : WitnessRecord}
    (member : record ∈ history.drop start) : ∃ i, i < N ∧ log.records i = record := by
  obtain ⟨offset, inside, rfl⟩ := mem_iff_getElem.mp member
  rw [length_drop] at inside
  have held := logged.retains (start + offset) (by omega) (by omega)
  refine ⟨(start + offset) % N, Nat.mod_lt _ positive, ?_⟩
  rw [getElem_drop]
  exact (List.getElem?_eq_some_iff.mp held).2.symm

end WitnessLog

namespace WitnessLog

variable {N : Nat} {hasher : ChainHasher} {start : WitnessLog} {history : List WitnessRecord}

theorem Logged.snapshot_appended (logged : Logged N start history) (calls : List WitnessCall)
    (fits : history.length + calls.length < 18446744073709551616) (out : List WitnessRecord) :
    (start.run N hasher calls).snapshotSince N start.checkpoint out =
      if calls.length > N then (.error .recordsOverwritten, out)
      else if out.length < calls.length then (.error (.outputTooSmall calls.length), out)
      else
        (.ok ⟨calls.length, (start.run N hasher calls).checkpoint⟩,
          start.produced N hasher calls ++ out.drop calls.length) := by
  have head : Logged N (start.run N hasher calls) _ := logged.run calls fits
  have total : (history ++ start.produced N hasher calls).length =
      history.length + calls.length := by
    rw [length_append, produced_length]
  have next : start.checkpoint.nextSequence = history.length := logged.sequence
  have past : start.checkpoint.nextSequence ≤ (history ++ start.produced N hasher calls).length := by
    rw [next, total]
    exact Nat.le_add_right _ _
  have outcome := head.snapshotSince (total ▸ fits) past out
  rw [next, total, Nat.add_sub_cancel_left, drop_left] at outcome
  exact outcome

end WitnessLog

/-! ### Consecutive snapshots -/

/-- A log with one reader: where its next epoch begins and what it has read. -/
structure Exporter where
  log : WitnessLog
  cursor : WitnessCheckpoint
  exported : List WitnessRecord

inductive ExportCall where
  | write (call : WitnessCall)
  | read (out : List WitnessRecord)

namespace Exporter

/-- A reader that begins at the head of a log. -/
def startingAt (log : WitnessLog) : Exporter := ⟨log, log.checkpoint, []⟩

def apply (N : Nat) (hasher : ChainHasher) (reader : Exporter) : ExportCall → Exporter
  | .write call => { reader with log := reader.log.apply N hasher call }
  | .read out =>
    let result := reader.log.snapshotSince N reader.cursor out
    match result.1 with
    | .error _ => reader
    | .ok snapshot =>
      { reader with
        cursor := snapshot.endCheckpoint
        exported := reader.exported ++ result.2.take snapshot.count }

def run (N : Nat) (hasher : ChainHasher) (reader : Exporter) (calls : List ExportCall) : Exporter :=
  calls.foldl (apply N hasher) reader

def writes (calls : List ExportCall) : List WitnessCall :=
  calls.filterMap fun
    | .write call => some call
    | .read _ => none

variable {N : Nat} {hasher : ChainHasher} {start : WitnessLog} {reader : Exporter}
  {history : List WitnessRecord} {calls : List ExportCall}

/-- What was exported and what is still to come make up the appended records. -/
structure Exported (N : Nat) (hasher : ChainHasher) (start : WitnessLog)
    (appended : List WitnessCall) (reader : Exporter) (first second : List WitnessCall) : Prop where
  split : appended = first ++ second
  log : reader.log = start.run N hasher appended
  cursor : reader.cursor = (start.run N hasher first).checkpoint
  exported : reader.exported = start.produced N hasher first

theorem Exported.write {appended first second : List WitnessCall}
    (exported : Exported N hasher start appended reader first second) (call : WitnessCall) :
    Exported N hasher start (appended ++ [call]) (reader.apply N hasher (.write call)) first
      (second ++ [call]) where
  split := by rw [exported.split, append_assoc]
  log := by
    rw [run_append, ← exported.log]
    rfl
  cursor := exported.cursor
  exported := exported.exported

theorem Exported.read {appended first second : List WitnessCall}
    (exported : Exported N hasher start appended reader first second)
    (logged : WitnessLog.Logged N start history)
    (fits : history.length + appended.length < 18446744073709551616) (out : List WitnessRecord) :
    (∃ e, (reader.log.snapshotSince N reader.cursor out).1 = .error e) ∧
        reader.apply N hasher (.read out) = reader ∨
      Exported N hasher start appended (reader.apply N hasher (.read out)) appended [] := by
  have lengths := congrArg List.length exported.split
  rw [length_append] at lengths
  have earlier : WitnessLog.Logged N (start.run N hasher first) _ := logged.run first (by omega)
  have outcome := @WitnessLog.Logged.snapshot_appended N hasher _ _ earlier second (by
    rw [length_append, produced_length]
    omega) out
  rw [← run_append, ← exported.split, ← exported.log, ← exported.cursor] at outcome
  rw [apply, outcome]
  split
  · exact .inl ⟨⟨_, rfl⟩, rfl⟩
  · split
    · exact .inl ⟨⟨_, rfl⟩, rfl⟩
    · refine .inr ⟨(append_nil _).symm, exported.log, ?_, ?_⟩
      · exact congrArg checkpoint exported.log
      · dsimp only
        rw [exported.exported, exported.split, produced_append]
        congr 1
        exact take_left' (produced_length second)

theorem exported_startingAt : Exported N hasher start [] (startingAt start) [] [] :=
  ⟨rfl, rfl, rfl, rfl⟩

theorem writes_append_singleton (call : ExportCall) :
    writes (calls ++ [call]) = writes calls ++ writes [call] :=
  filterMap_append

theorem run_append_singleton (call : ExportCall) :
    reader.run N hasher (calls ++ [call]) = (reader.run N hasher calls).apply N hasher call := by
  rw [run, foldl_append]
  rfl

/-- Reads and writes in any order leave nothing out and repeat nothing. -/
theorem exported_run (logged : WitnessLog.Logged N start history) (calls : List ExportCall)
    (fits : history.length + (writes calls).length < 18446744073709551616) :
    ∃ first second, Exported N hasher start (writes calls)
      ((startingAt start).run N hasher calls) first second := by
  induction calls using List.reverseRecOn with
  | nil => exact ⟨[], [], exported_startingAt⟩
  | append_singleton calls call ih =>
    rw [writes_append_singleton, length_append] at fits
    obtain ⟨first, second, exported⟩ := ih (by omega)
    rw [writes_append_singleton, run_append_singleton]
    cases call with
    | write call => exact ⟨first, second ++ [call], exported.write call⟩
    | read out =>
      have unchanged : writes calls ++ writes [.read out] = writes calls := append_nil _
      rw [unchanged]
      rcases exported.read logged (by omega) out with ⟨_, same⟩ | all
      · rw [same]
        exact ⟨first, second, exported⟩
      · exact ⟨_, [], all⟩

end Exporter

/-! ### Export from a checkpoint -/

structure ExactSnapshot (N : Nat) (hasher : ChainHasher) (start : WitnessLog)
    (appended : List WitnessCall) (out : List WitnessRecord) : Prop where
  untouched : ∀ e, ((start.run N hasher appended).snapshotSince N start.checkpoint out).1 =
    .error e → ((start.run N hasher appended).snapshotSince N start.checkpoint out).2 = out
  complete : ∀ snapshot,
    ((start.run N hasher appended).snapshotSince N start.checkpoint out).1 = .ok snapshot →
      snapshot = ⟨appended.length, (start.run N hasher appended).checkpoint⟩ ∧
      ((start.run N hasher appended).snapshotSince N start.checkpoint out).2 =
        start.produced N hasher appended ++ out.drop appended.length ∧
      (appended ≠ [] → verifyChainFrom hasher
        (((start.run N hasher appended).snapshotSince N start.checkpoint out).2.take snapshot.count)
        start.checkpoint.chainHash start.checkpoint.nextSequence = .ok snapshot.count)
  overwritten : ((start.run N hasher appended).snapshotSince N start.checkpoint out).1 =
      .error .recordsOverwritten ↔
    ∃ record ∈ start.produced N hasher appended,
      ∀ i, i < N → (start.run N hasher appended).records i ≠ record
  tooSmall : (∃ required, ((start.run N hasher appended).snapshotSince N start.checkpoint out).1 =
      .error (.outputTooSmall required)) ↔
    (∀ record ∈ start.produced N hasher appended,
      ∃ i, i < N ∧ (start.run N hasher appended).records i = record) ∧ out.length < appended.length

namespace WitnessLog

variable {N : Nat} {hasher : ChainHasher} {start : WitnessLog} {history : List WitnessRecord}

theorem Logged.overwritten_iff (logged : Logged N start history) (positive : 0 < N)
    (calls : List WitnessCall)
    (fits : history.length + calls.length < 18446744073709551616) :
    (∃ record ∈ start.produced N hasher calls,
      ∀ i, i < N → (start.run N hasher calls).records i ≠ record) ↔ calls.length > N := by
  have head : Logged N (start.run N hasher calls) _ := logged.run calls fits
  have total : (history ++ start.produced N hasher calls).length - history.length =
      calls.length := by
    rw [length_append, produced_length, Nat.add_sub_cancel_left]
  have later : (history ++ start.produced N hasher calls).drop history.length =
      start.produced N hasher calls := drop_left
  constructor
  · rintro ⟨record, member, nowhere⟩
    by_contra near
    rw [← total] at near
    rw [← later] at member
    obtain ⟨i, below, held⟩ := head.retained positive (Nat.not_lt.mp near) member
    exact nowhere i below held
  · intro far
    rw [← total] at far
    obtain ⟨record, member, nowhere⟩ := head.overwritten far
    exact ⟨record, later ▸ member, nowhere⟩

theorem Logged.exactSnapshot (logged : Logged N start history) (positive : 0 < N)
    (calls : List WitnessCall)
    (fits : history.length + calls.length < 18446744073709551616) (out : List WitnessRecord) :
    ExactSnapshot N hasher start calls out := by
  have outcome : (start.run N hasher calls).snapshotSince N start.checkpoint out = _ :=
    logged.snapshot_appended calls fits out
  have gone := @Logged.overwritten_iff N hasher start history logged positive calls fits
  have here : (∀ record ∈ start.produced N hasher calls,
      ∃ i, i < N ∧ (start.run N hasher calls).records i = record) ↔ ¬calls.length > N := by
    rw [← gone]
    push Not
    rfl
  constructor
  · intro e refused
    rw [outcome] at refused ⊢
    split
    · rfl
    · split
      · rfl
      · rename_i retained room
        rw [if_neg retained, if_neg room] at refused
        cases refused
  · intro snapshot taken
    rw [outcome] at taken ⊢
    split at taken
    · cases taken
    · split at taken
      · cases taken
      · rename_i retained room
        cases taken
        rw [if_neg retained, if_neg room]
        refine ⟨rfl, rfl, fun nonempty => ?_⟩
        have accepted := @verifyChainFrom_produced N hasher start calls nonempty
        rw [produced_length] at accepted
        rw [take_left' (produced_length calls)]
        exact accepted
  · rw [outcome, gone]
    split
    · rename_i far
      exact iff_of_true rfl far
    · rename_i near
      refine iff_of_false ?_ near
      split
      · exact fun refused => by cases refused
      · exact fun refused => by cases refused
  · rw [outcome, here]
    split
    · rename_i far
      refine iff_of_false ?_ fun both => both.1 far
      rintro ⟨_, refused⟩
      cases refused
    · rename_i near
      split
      · rename_i short
        exact iff_of_true ⟨_, rfl⟩ ⟨near, short⟩
      · rename_i room
        refine iff_of_false ?_ fun both => room both.2
        rintro ⟨_, refused⟩
        cases refused

end WitnessLog

/-- From every checkpoint a snapshot is exact or refused, and consecutive ones are the appended
records, below `2^64` of them. -/
theorem checkpointedExport (N : Nat) (positive : 0 < N) (hasher : ChainHasher)
    (before : List WitnessCall) :
    (∀ appended out, before.length + appended.length < 18446744073709551616 →
      ExactSnapshot N hasher (WitnessLog.new.run N hasher before) appended out) ∧
    ∀ calls, before.length + (Exporter.writes calls).length < 18446744073709551616 →
      (∃ first second, Exporter.Exported N hasher (WitnessLog.new.run N hasher before)
        (Exporter.writes calls)
        ((Exporter.startingAt (WitnessLog.new.run N hasher before)).run N hasher calls)
        first second) ∧
      ∀ out snapshot,
        (WitnessLog.snapshotSince N
          ((Exporter.startingAt (WitnessLog.new.run N hasher before)).run N hasher calls).log
          ((Exporter.startingAt (WitnessLog.new.run N hasher before)).run N hasher calls).cursor
          out).1 = .ok snapshot →
        ((Exporter.startingAt (WitnessLog.new.run N hasher before)).run N hasher
          (calls ++ [.read out])).exported =
            (WitnessLog.new.run N hasher before).produced N hasher (Exporter.writes calls) := by
  have logged : ∀ more : Nat, before.length + more < 18446744073709551616 →
      WitnessLog.Logged N (WitnessLog.new.run N hasher before)
        (WitnessLog.new.produced N hasher before) :=
    fun more fits => WitnessLog.logged_produced before (by omega)
  refine ⟨fun appended out fits => ?_, fun calls fits => ⟨?_, fun out snapshot taken => ?_⟩⟩
  · exact (logged _ fits).exactSnapshot positive appended
      (by rw [WitnessLog.produced_length]; exact fits) out
  · exact Exporter.exported_run (logged _ fits) calls
      (by rw [WitnessLog.produced_length]; exact fits)
  · obtain ⟨first, second, exported⟩ := @Exporter.exported_run N hasher _ _ (logged _ fits) calls
      (by rw [WitnessLog.produced_length]; exact fits)
    rw [Exporter.run_append_singleton]
    rcases exported.read (logged _ fits) (by rw [WitnessLog.produced_length]; exact fits) out with
      ⟨⟨e, refused⟩, _⟩ | all
    · rw [taken] at refused
      cases refused
    · exact all.exported

/-- A write and a read from a log with one record. -/
theorem checkpointedExport_sample :
    ((Exporter.startingAt (WitnessLog.new.run 4 pairingHasher [.append .zeroed])).run 4
      pairingHasher [.write (.append .zeroed), .read [.zeroed]]).exported.length = 1 := by
  have exact := (checkpointedExport 4 (by decide) pairingHasher [.append .zeroed]).2
    [.write (.append .zeroed)] (by decide)
  have exported := exact.2 [.zeroed] ⟨1, ⟨2, _⟩⟩ rfl
  have joined := congrArg List.length exported
  exact joined.trans rfl

/-! ### Where export is not exact -/

theorem run_sequence (hasher : ChainHasher) (record : WitnessRecord) (count : Nat) :
    (WitnessLog.new.run 1 hasher (List.replicate count (.append record))).sequence =
      asU64 count := by
  induction count with
  | zero => rfl
  | succ count ih =>
    rw [replicate_succ', run_append]
    change asU64 (_ + 1) = _
    rw [ih]
    exact Nat.mod_add_mod count 18446744073709551616 1

/-- An empty epoch is exported but not accepted; overwritten comes before too long; and after
`2^64` records the genesis checkpoint exports nothing. -/
theorem checkpointedExport_limits :
    ((WitnessLog.new.snapshotSince 1 WitnessLog.new.checkpoint []).1 = .ok ⟨0, ⟨0, 0⟩⟩ ∧
      verifyChainFrom pairingHasher [] 0 0 = .error .emptyLog) ∧
    ((WitnessLog.new.run 1 pairingHasher [.append .zeroed, .append .zeroed]).snapshotSince 1
      WitnessLog.new.checkpoint []).1 = .error .recordsOverwritten ∧
    ∃ appended : List WitnessCall, appended.length = 18446744073709551616 ∧
      ((WitnessLog.new.run 1 pairingHasher appended).snapshotSince 1
        WitnessLog.new.checkpoint []).1 =
          .ok ⟨0, (WitnessLog.new.run 1 pairingHasher appended).checkpoint⟩ := by
  refine ⟨⟨rfl, rfl⟩, by decide, List.replicate 18446744073709551616 (.append .zeroed),
    List.length_replicate, ?_⟩
  have wrapped := run_sequence pairingHasher .zeroed 18446744073709551616
  have zero : asU64 18446744073709551616 = 0 := Nat.mod_self _
  rw [zero] at wrapped
  rw [WitnessLog.snapshotSince, wrapped]
  rfl

end Rvm.Witness
