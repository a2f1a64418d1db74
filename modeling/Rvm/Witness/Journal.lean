import Rvm.Witness.Snapshot

/-!
Owns a witness log as the calls made on it since it was new: what the reads of
`rvm-witness/src/log.rs` return of such a log, as long as nothing is overwritten, and
that `snapshot` returns the newest records.
-/

namespace Rvm.Witness.WitnessLog

open List

variable {N : Nat} {hasher : ChainHasher}

def len (N : Nat) (log : WitnessLog) : Nat := if log.totalEmitted ≥ N then N else log.totalEmitted

def get (N : Nat) (log : WitnessLog) (ringIndex : Nat) : Option WitnessRecord :=
  if ringIndex ≥ N then none
  else if log.totalEmitted = 0 then none
  else some (log.records ringIndex)

theorem filterMap_getElem?_range {α : Type} (items : List α) :
    ((List.range items.length).filterMap fun i => items[i]?) = items := by
  induction items using List.reverseRecOn with
  | nil => rfl
  | append_singleton items last ih =>
    rw [length_append, length_singleton, range_succ, filterMap_append]
    congr 1
    · refine (filterMap_congr fun i inRange => ?_).trans ih
      rw [List.getElem?_append_left (mem_range.mp inRange)]
    · rw [filterMap_cons, List.getElem?_concat_length]
      rfl

variable {calls : List WitnessCall}

theorem get_produced (fits : calls.length ≤ N) (small : N < 18446744073709551616) :
    (List.range ((new.run N hasher calls).len N)).filterMap ((new.run N hasher calls).get N) =
      new.produced N hasher calls := by
  have logged : Logged N (new.run N hasher calls) _ := logged_produced calls (by omega)
  have emitted : (new.run N hasher calls).totalEmitted = calls.length := by
    rw [totalEmitted_run]
    exact Nat.mod_eq_of_lt (by omega)
  have length : (new.produced N hasher calls).length = calls.length := produced_length calls
  have stored : (new.run N hasher calls).len N = (new.produced N hasher calls).length := by
    rw [len, emitted, length]
    split <;> omega
  rw [stored]
  refine (filterMap_congr fun i inRange => ?_).trans (filterMap_getElem?_range _)
  have below : i < calls.length := length ▸ mem_range.mp inRange
  rw [get, if_neg (by omega), if_neg (by omega), logged.retains i (by omega) (by omega),
    Nat.mod_eq_of_lt (by omega)]

theorem produced_sequence (small : calls.length < 18446744073709551616) {i : Nat}
    {record : WitnessRecord} (found : (new.produced N hasher calls)[i]? = some record) :
    record.sequence = i := by
  have logged : Logged N (new.run N hasher calls) _ := logged_produced calls small
  exact logged.numbered i record found

theorem produced_kind {log : WitnessLog} {i : Nat} {record : WitnessRecord}
    (found : calls[i]? = some (.append record)) :
    ∃ stored, (log.produced N hasher calls)[i]? = some stored ∧
      stored.actionKind = record.actionKind := by
  induction calls generalizing log i with
  | nil => cases found
  | cons call rest ih =>
    cases i with
    | zero =>
      obtain rfl := Option.some.inj found
      exact ⟨_, rfl, rfl⟩
    | succ i => exact ih found

/-- Returns the count copied and what it leaves in the buffer. -/
def snapshot (N : Nat) (log : WitnessLog) (buf : List WitnessRecord) : Nat × List WitnessRecord :=
  let total := log.totalEmitted
  let available := if total ≥ N then N else total
  let toCopy := min buf.length available
  if toCopy = 0 then (0, buf)
  else
    let start := if total ≥ N then log.writePos else 0
    (toCopy, buf.mapIdx fun i slot =>
      if i < toCopy then log.records ((start + (available - toCopy) + i) % N) else slot)

variable {log : WitnessLog} {history : List WitnessRecord}

/-- The cell that the copy loop reads holds the record that many before the end. -/
theorem Logged.recent_cell (logged : Logged N log history) {count i : Nat}
    (retained : count ≤ min history.length N) (below : i < count) :
    history[history.length - count + i]? = some (log.records
      (((if history.length ≥ N then log.writePos else 0) +
        ((if history.length ≥ N then N else history.length) - count) + i) % N)) := by
  rw [logged.retains _ (by omega) (by omega), logged.position]
  congr 2
  split
  · next full =>
      rw [Nat.add_assoc, Nat.mod_add_mod]
      have turn : history.length + (N - count + i) = history.length - count + i + N := by omega
      rw [turn, Nat.add_mod_right]
  · rw [Nat.zero_add]

theorem Logged.snapshot (logged : Logged N log history)
    (total : log.totalEmitted = history.length) (buf : List WitnessRecord) :
    log.snapshot N buf = (min buf.length (min history.length N),
      history.drop (history.length - min buf.length (min history.length N)) ++
        buf.drop (min buf.length (min history.length N))) := by
  have available : (if history.length ≥ N then N else history.length) = min history.length N := by
    split <;> omega
  generalize counted : min buf.length (min history.length N) = count
  rw [WitnessLog.snapshot, total]
  dsimp only
  rw [available, counted]
  split
  · next nothing => simp [nothing]
  · congr 1
    apply ext_getElem?
    intro i
    rw [List.getElem?_mapIdx]
    by_cases below : i < count
    · have cell := @Logged.recent_cell N log history logged count i (by omega) below
      rw [List.getElem?_append_left (by rw [length_drop]; omega), List.getElem?_drop, cell,
        List.getElem?_eq_getElem (by omega), available]
      simp [below]
    · rw [List.getElem?_append_right (by rw [length_drop]; omega), List.getElem?_drop,
        length_drop, Nat.sub_sub_self (by omega), Nat.add_sub_cancel' (by omega)]
      cases buf[i]? with
      | none => rfl
      | some slot => simp [below]

end Rvm.Witness.WitnessLog

namespace Rvm.Witness

/-- A snapshot is the newest records, oldest first, and the rest of the buffer. -/
structure NewestRecords (hasher : ChainHasher) (produced buf : List WitnessRecord)
    (retained : Nat) (result : Nat × List WitnessRecord) : Prop where
  count : result.1 = min buf.length retained
  newest : result.2 = produced.drop (produced.length - result.1) ++ buf.drop result.1
  consecutive : ∀ i record, i < result.1 → result.2[i]? = some record →
    record.sequence = produced.length - result.1 + i
  verified : 0 < result.1 → result.1 = produced.length →
    verifyChain hasher (result.2.take result.1) = .ok result.1

/-- In every run of fewer than `2^64` appends a snapshot returns the newest records. -/
theorem snapshotReturnsNewest (N : Nat) (hasher : ChainHasher) (calls : List WitnessCall)
    (fits : calls.length < 18446744073709551616) (buf : List WitnessRecord) :
    NewestRecords hasher (WitnessLog.new.produced N hasher calls) buf (min calls.length N)
      ((WitnessLog.new.run N hasher calls).snapshot N buf) := by
  have logged := @WitnessLog.logged_produced N hasher calls fits
  have length : (WitnessLog.new.produced N hasher calls).length = calls.length :=
    WitnessLog.produced_length calls
  have total : (WitnessLog.new.run N hasher calls).totalEmitted =
      (WitnessLog.new.produced N hasher calls).length := by
    rw [WitnessLog.totalEmitted_run, length]
    exact Nat.mod_eq_of_lt fits
  rw [logged.snapshot total buf, length]
  refine ⟨rfl, by rw [length], ?_, ?_⟩
  · intro i record below held
    rw [List.getElem?_append_left (by rw [List.length_drop]; omega), List.getElem?_drop] at held
    rw [length]
    exact logged.numbered _ record held
  · intro some all
    have accepted := @verifyChainFrom_produced N hasher .new calls
      (List.ne_nil_of_length_pos (by omega))
    rw [length] at all accepted
    dsimp only at all ⊢
    rw [all, Nat.sub_self, List.drop_zero, List.take_left' length]
    exact accepted

theorem snapshotReturnsNewest_wrapped : (WitnessLog.new.run 1 pairingHasher
    [.append .zeroed, .append .zeroed]).snapshot 1 [.zeroed] =
      (1, (WitnessLog.new.produced 1 pairingHasher [.append .zeroed, .append .zeroed]).drop 1) := by
  have newest := snapshotReturnsNewest 1 pairingHasher [.append .zeroed, .append .zeroed]
    (by decide) [.zeroed]
  exact Prod.ext newest.count (newest.newest.trans rfl)

theorem run_newest (hasher : ChainHasher) (record : WitnessRecord) {count : Nat}
    (fits : count < 18446744073709551616) :
    ((WitnessLog.new.run 1 hasher (List.replicate (count + 1) (.append record))).records
      0).sequence = count := by
  have before := @WitnessLog.logged_produced 1 hasher (List.replicate count (.append record))
    (by rwa [List.length_replicate])
  have position := before.position
  rw [Nat.mod_one] at position
  rw [List.replicate_succ', WitnessLog.run_append]
  change (Function.update (WitnessLog.run 1 hasher .new _).records _
    (WitnessLog.stamp hasher _ record) 0).sequence = _
  rw [position, Function.update_self]
  exact (run_sequence hasher record count).trans (Nat.mod_eq_of_lt fits)

/-- After `2^64` records the total is zero: a full ring holds the newest record and a
snapshot is empty. -/
theorem snapshotReturnsNewest_limit : ∃ calls : List WitnessCall,
    calls.length = 18446744073709551616 ∧
      ((WitnessLog.new.run 1 pairingHasher calls).records 0).sequence = 18446744073709551615 ∧
      (WitnessLog.new.run 1 pairingHasher calls).snapshot 1 [.zeroed] = (0, [.zeroed]) := by
  refine ⟨List.replicate (18446744073709551615 + 1) (.append .zeroed), List.length_replicate,
    run_newest pairingHasher .zeroed (by decide), ?_⟩
  have zero : (WitnessLog.new.run 1 pairingHasher
      (List.replicate (18446744073709551615 + 1) (.append .zeroed))).totalEmitted = 0 := by
    rw [WitnessLog.totalEmitted_run, List.length_replicate]
    rfl
  rw [WitnessLog.snapshot, zero]
  rfl

end Rvm.Witness
