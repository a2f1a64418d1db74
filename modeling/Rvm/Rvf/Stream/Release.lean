import Rvm.Foundation.Run
import Rvm.Rvf.Stream.Effects

/-!
Owns the release law of a stream: in every run of a receiver, what was released
was committed by the signer, in order, once, and after the stages it requires.
-/

namespace Rvm.Rvf

open Foundation Foundation.Call List StreamVerifier StreamHeader SegState Option

/-! ### Histories -/

abbrev History := List (Request × Reply)

def Reply.releases : Reply → Option VerifiedChunk
  | .event (.ok accepted) => accepted.releases
  | _ => none

def released (history : History) : List VerifiedChunk :=
  history.filterMap fun label => label.2.releases

def chunkIndices (chunks : List VerifiedChunk) (segId : Nat) : List Nat :=
  (chunks.filter fun chunk => chunk.segId = segId).map VerifiedChunk.chunkIndex

def Hashed (fileId : Octets 16) (history : History) (message : List UInt8) : Prop :=
  ∃ frame reply, (Request.push frame, reply) ∈ history ∧ FrameMessage fileId frame message

theorem released_snoc (history : History) (label : Request × Reply) :
    released (history ++ [label]) = released history ++ label.2.releases.toList := by
  cases releases : label.2.releases <;> simp [released, releases]

theorem chunkIndices_snoc (chunks : List VerifiedChunk) (chunk : VerifiedChunk) (segId : Nat) :
    chunkIndices (chunks ++ [chunk]) segId =
      chunkIndices chunks segId ++ if chunk.segId = segId then [chunk.chunkIndex] else [] := by
  unfold chunkIndices
  rw [filter_append, map_append]
  by_cases same : chunk.segId = segId <;> simp [same]

theorem Hashed.mono {fileId : Octets 16} {history : History} {message : List UInt8}
    (hashed : Hashed fileId history message) (label : Request × Reply) :
    Hashed fileId (history ++ [label]) message := by
  obtain ⟨frame, reply, member, hashes⟩ := hashed
  exact ⟨frame, reply, mem_append_left _ member, hashes⟩

/-! ### Commitments -/

/-- The commitment of an entry of `n` chunks vouches for chunk `idx`: it is the
chunk's leaf, or the hash of a leaf list that holds it. All messages hashed on
the way are among `messages`. -/
def Commits (primitives : Primitives) (fileId : Octets 16) (messages : List UInt8 → Prop)
    (e : StreamEntry) (n idx : Nat) (bytes : List UInt8) : Prop :=
  messages (leafMessage fileId e.segId idx bytes) ∧
    if n = 1 then primitives.leafHash fileId e.segId idx bytes = e.chunkTableHash
    else ∃ flat, flat.length = 32 * n ∧
      primitives.chunkListHashFlat fileId e.segId flat = some e.chunkTableHash ∧
      messages (tableMessage fileId e.segId n flat) ∧
      octetsAt 32 flat (idx * 32) = some (primitives.leafHash fileId e.segId idx bytes)

theorem Commits.mono {primitives : Primitives} {fileId : Octets 16}
    {messages more : List UInt8 → Prop} {e : StreamEntry} {n idx : Nat} {bytes : List UInt8}
    (commits : Commits primitives fileId messages e n idx bytes)
    (weaker : ∀ message, messages message → more message) :
    Commits primitives fileId more e n idx bytes := by
  obtain ⟨leaf, vouched⟩ := commits
  refine ⟨weaker _ leaf, ?_⟩
  split
  · rwa [if_pos ‹n = 1›] at vouched
  · rw [if_neg ‹¬n = 1›] at vouched
    obtain ⟨flat, size, hashes, table, place⟩ := vouched
    exact ⟨flat, size, hashes, weaker _ table, place⟩

/-- A released chunk lies where its entry says, has the length the descriptor
gives it and is committed by the entry. -/
structure Committed (primitives : Primitives) (d : VerifiedDescriptor)
    (messages : List UInt8 → Prop) (e : StreamEntry) (chunk : VerifiedChunk) : Prop where
  segId : chunk.segId = e.segId
  segType : chunk.segType = e.segType
  length : d.header.chunkLen e.storedLen chunk.chunkIndex = some chunk.bytes.length
  segmentOffset : chunk.segmentOffset = d.header.chunkStart chunk.chunkIndex
  bodyOffset : chunk.bodyOffset = e.bodyOffset + chunk.segmentOffset
  commits : ∀ n, d.header.chunkCount e.storedLen = some n →
    Commits primitives d.header.fileId messages e n chunk.chunkIndex chunk.bytes

/-- Every chunk of the entry's segment is among the chunks, once and in order. -/
def Whole (d : VerifiedDescriptor) (chunks : List VerifiedChunk) (e : StreamEntry) : Prop :=
  ∃ n, d.header.chunkCount e.storedLen = some n ∧ chunkIndices chunks e.segId = List.range n

def Staged (d : VerifiedDescriptor) (chunks : List VerifiedChunk) : Prop :=
  ∀ before chunk after, chunks = before ++ chunk :: after →
    ∀ e ∈ d.entries, e.segId = chunk.segId →
      ∀ needed ∈ d.entries, e.requiresMask.testBit needed.stage → Whole d before needed

/-! ### Following a descriptor -/

/-- A segment that is not fully verified weighs one. -/
def openWeight (_ : StreamEntry) (s : SegState) : Nat := if s.done then 0 else 1

def stageWeight (stage : Nat) (e : StreamEntry) (s : SegState) : Nat :=
  if e.stage = stage then openWeight e s else 0

/-- The bytes of a segment that were released. -/
def byteWeight (h : StreamHeader) (e : StreamEntry) (s : SegState) : Nat :=
  h.covered e.storedLen s.next

structure SegmentFollows (primitives : Primitives) (d : VerifiedDescriptor) (history : History)
    (e : StreamEntry) (s : SegState) : Prop where
  counted : d.header.chunkCount e.storedLen = some s.n
  bounded : s.next ≤ s.n
  done : s.done = true ↔ s.next = s.n
  tableLength : ∀ flat, s.leaves = some flat → flat.length = 32 * s.n
  table : ∀ flat, s.leaves = some flat → s.n > 1 ∧
    primitives.chunkListHashFlat d.header.fileId e.segId flat = some e.chunkTableHash ∧
    Hashed d.header.fileId history (tableMessage d.header.fileId e.segId s.n flat)
  indices : chunkIndices (released history) e.segId = List.range s.next

structure Follows (primitives : Primitives) (d : VerifiedDescriptor) (history : History)
    (v : StreamVerifier) : Prop where
  installed : v.desc = some d
  valid : d.Valid
  begun : v.state ≠ .awaitDescriptor
  length : v.segs.length = d.entries.length
  segment : ∀ (i : Nat) e s, d.entries[i]? = some e → v.segs[i]? = some s →
    SegmentFollows primitives d history e s
  left : v.left = Foundation.tally d.entries v.segs openWeight
  stageRemaining : ∀ stage < maxStages,
    v.stageRemaining stage = Foundation.tally d.entries v.segs (stageWeight stage)
  verifiedBytes : v.verifiedBytes = Foundation.tally d.entries v.segs (byteWeight d.header)
  summed : v.verifiedBytes = ((released history).map fun chunk => chunk.bytes.length).sum
  committed : ∀ chunk ∈ released history, ∃ e ∈ d.entries,
    Committed primitives d (Hashed d.header.fileId history) e chunk
  staged : Staged d (released history)
  completed : v.state.Finished → v.left = 0 ∧ v.verifiedBytes = d.header.bodyLen

section Steps

variable {primitives : Primitives} {d : VerifiedDescriptor} {history : History}
  {v next : StreamVerifier} {label : Request × Reply}

theorem Follows.consistent (follows : Follows primitives d history v) : Consistent v d where
  installed := follows.installed
  valid := follows.valid
  length := follows.length
  counted i e s entry seg := (follows.segment i e s entry seg).counted
  table i e s flat entry seg kept := (follows.segment i e s entry seg).tableLength flat kept

variable {e : StreamEntry} {i : Nat}

theorem SegmentFollows.extend {s : SegState} (follows : SegmentFollows primitives d history e s)
    (nothing : label.2.releases = none) : SegmentFollows primitives d (history ++ [label]) e s :=
  { follows with
    table := fun flat kept => by
      obtain ⟨several, hashes, hashed⟩ := follows.table flat kept
      exact ⟨several, hashes, hashed.mono label⟩
    indices := by
      rw [released_snoc, nothing, toList_none, append_nil]
      exact follows.indices }

theorem Committed.mono {chunk : VerifiedChunk}
    (committed : Committed primitives d (Hashed d.header.fileId history) e chunk) :
    Committed primitives d (Hashed d.header.fileId (history ++ [label])) e chunk :=
  { committed with
    commits := fun n counted => (committed.commits n counted).mono fun _ hashed =>
      hashed.mono label }

theorem Follows.calm (follows : Follows primitives d history v) (quiet : Quiet v next) :
    Follows primitives d history next where
  installed := quiet.desc.trans follows.installed
  valid := follows.valid
  begun := fun awaiting => follows.begun (quiet.begun awaiting)
  length := quiet.segs ▸ follows.length
  segment i e s entry seg := follows.segment i e s entry (quiet.segs ▸ seg)
  left := by rw [quiet.left, quiet.segs, follows.left]
  stageRemaining stage inside := by
    rw [quiet.stageRemaining, quiet.segs, follows.stageRemaining stage inside]
  verifiedBytes := by rw [quiet.verifiedBytes, quiet.segs, follows.verifiedBytes]
  summed := quiet.verifiedBytes.trans follows.summed
  committed := follows.committed
  staged := follows.staged
  completed ended := by
    rw [quiet.left, quiet.verifiedBytes]
    exact follows.completed (quiet.finished ended)

theorem Follows.silent (follows : Follows primitives d history v)
    (nothing : label.2.releases = none) : Follows primitives d (history ++ [label]) v := by
  have same : released (history ++ [label]) = released history := by
    rw [released_snoc, nothing, toList_none, append_nil]
  exact
    { follows with
      segment := fun i e s entry seg => (follows.segment i e s entry seg).extend nothing
      summed := same ▸ follows.summed
      committed := fun chunk member => by
        obtain ⟨e, entry, committed⟩ := follows.committed chunk (same ▸ member)
        exact ⟨e, entry, committed.mono⟩
      staged := same ▸ follows.staged }

theorem record_set_cases {records : List SegState} {j : Nat} {new record : SegState}
    (at' : (records.set i new)[j]? = some record) :
    i = j ∧ record = new ∨ i ≠ j ∧ records[j]? = some record := by
  rw [List.getElem?_set] at at'
  split at at'
  · split at at'
    · exact .inl ⟨‹i = j›, (some.inj at').symm⟩
    · cases at'
  · exact .inr ⟨‹¬i = j›, at'⟩

theorem tally_same {old new : SegState} {weight : StreamEntry → SegState → Nat}
    (entry : d.entries[i]? = some e) (seg : v.segs[i]? = some old)
    (same : weight e new = weight e old) :
    Foundation.tally d.entries (v.segs.set i new) weight = Foundation.tally d.entries v.segs weight := by
  have step : Foundation.tally d.entries (v.segs.set i new) weight + weight e old =
      Foundation.tally d.entries v.segs weight + weight e new := tally_set entry seg
  omega

theorem Follows.kept {s : SegState} {flat frame : List UInt8} {reply : Reply}
    (follows : Follows primitives d history v) (place : Place v d i e s) (several : s.n > 1)
    (size : flat.length = 32 * s.n)
    (hashes : primitives.chunkListHashFlat d.header.fileId e.segId flat = some e.chunkTableHash)
    (message : FrameMessage d.header.fileId frame (tableMessage d.header.fileId e.segId s.n flat))
    (kept : Kept v i s flat next) (nothing : reply.releases = none) :
    Follows primitives d (history ++ [(.push frame, reply)]) next where
  installed := kept.desc.trans follows.installed
  valid := follows.valid
  begun := fun awaiting => follows.begun (kept.begun awaiting)
  length := by rw [kept.segs, length_set, follows.length]
  segment j other record entry seg := by
    rw [kept.segs] at seg
    rcases record_set_cases seg with ⟨rfl, rfl⟩ | ⟨_, seg⟩
    · obtain rfl : e = other := some.inj (place.entry.symm.trans entry)
      have before : SegmentFollows primitives d (history ++ [(.push frame, reply)]) e s :=
        (follows.segment i e s entry place.seg).extend nothing
      exact { before with
        tableLength := fun list some' => some.inj some' ▸ size
        table := fun list some' => by
          obtain rfl : flat = list := some.inj some'
          exact ⟨several, hashes, frame, reply, mem_append_right _ mem_cons_self,
            message⟩ }
    · exact (follows.segment j other record entry seg).extend nothing
  left := by
    rw [kept.left, kept.segs, follows.left]
    symm
    apply tally_same place.entry place.seg
    rfl
  stageRemaining stage inside := by
    rw [kept.stageRemaining, kept.segs, follows.stageRemaining stage inside]
    symm
    apply tally_same place.entry place.seg
    rfl
  verifiedBytes := by
    rw [kept.verifiedBytes, kept.segs, follows.verifiedBytes]
    symm
    apply tally_same place.entry place.seg
    rfl
  summed := by
    rw [kept.verifiedBytes, follows.summed, released_snoc, nothing, toList_none, append_nil]
  committed chunk member := by
    rw [released_snoc, nothing, toList_none, append_nil] at member
    obtain ⟨e, entry, committed⟩ := follows.committed chunk member
    exact ⟨e, entry, committed.mono⟩
  staged := by
    rw [released_snoc, nothing, toList_none, append_nil]
    exact follows.staged
  completed ended := by
    rw [kept.left, kept.verifiedBytes]
    exact follows.completed (kept.finished ended)

/-! ### A release -/

section Releasing

variable {i : Nat} {e : StreamEntry} {s : SegState} {bytes : List UInt8}

theorem SegmentFollows.room (follows : SegmentFollows primitives d history e s)
    (notDone : s.done = false) : s.next < s.n := by
  refine lt_of_le_of_ne follows.bounded fun full => ?_
  rw [follows.done.mpr full] at notDone
  cases notDone

theorem bumped_n (s : SegState) : s.bumped.n = s.n := by
  unfold bumped
  split <;> rfl

theorem bumped_next (s : SegState) : s.bumped.next = s.next + 1 := by
  unfold bumped
  split <;> rfl

theorem bumped_done (notDone : s.done = false) :
    s.bumped.done = true ↔ s.bumped.next = s.bumped.n := by
  unfold bumped
  split <;> simp_all

theorem bumped_leaves {flat : List UInt8} (some' : s.bumped.leaves = some flat) :
    s.leaves = some flat := by
  unfold bumped at some'
  split at some'
  · cases some'
  · exact some'

theorem openWeight_bumped (notDone : s.done = false) :
    openWeight e s.bumped = if s.next + 1 = s.n then 0 else 1 := by
  unfold openWeight bumped
  split <;> simp [notDone]

theorem open_step (place : Place v d i e s) (notDone : s.done = false) :
    Foundation.tally d.entries (v.segs.set i s.bumped) openWeight + 1 =
      Foundation.tally d.entries v.segs openWeight + if s.next + 1 = s.n then 0 else 1 := by
  have step := @tally_set _ _ d.entries v.segs openWeight i e s s.bumped place.entry place.seg
  rw [openWeight_bumped notDone] at step
  have weight : openWeight e s = 1 := by simp [openWeight, notDone]
  rwa [weight] at step

theorem stage_step (place : Place v d i e s) (notDone : s.done = false) (stage : Nat) :
    Foundation.tally d.entries (v.segs.set i s.bumped) (stageWeight stage) +
        (if e.stage = stage then 1 else 0) =
      Foundation.tally d.entries v.segs (stageWeight stage) +
        if e.stage = stage then if s.next + 1 = s.n then 0 else 1 else 0 := by
  have step := @tally_set _ _ d.entries v.segs (stageWeight stage) i e s s.bumped place.entry
    place.seg
  unfold stageWeight at step ⊢
  rw [openWeight_bumped notDone] at step
  have weight : openWeight e s = 1 := by simp [openWeight, notDone]
  rwa [weight] at step

theorem open_le (v : StreamVerifier) (weight : StreamEntry → SegState → Nat)
    (bounded : ∀ e s, weight e s ≤ 1) (valid : d.Valid) :
    Foundation.tally d.entries v.segs weight < 256 ^ 4 := by
  have sum := @tally_le _ _ d.entries v.segs weight (fun _ => 1) fun e _ s => bounded e s
  rw [map_const', sum_replicate_nat, valid.count, mul_one] at sum
  exact sum.trans_lt valid.header.segCount

theorem openWeight_le (e : StreamEntry) (s : SegState) : openWeight e s ≤ 1 := by
  unfold openWeight
  split <;> omega

theorem stageWeight_le (stage : Nat) (e : StreamEntry) (s : SegState) :
    stageWeight stage e s ≤ 1 := by
  unfold stageWeight
  split
  · exact openWeight_le e s
  · omega

theorem bytes_step (follows : SegmentFollows primitives d history e s) (valid : d.Valid)
    (place : Place v d i e s) (admitted : Admitted primitives v d e s e.segId s.next bytes) :
    Foundation.tally d.entries (v.segs.set i s.bumped) (byteWeight d.header) =
        Foundation.tally d.entries v.segs (byteWeight d.header) + bytes.length ∧
      Foundation.tally d.entries (v.segs.set i s.bumped) (byteWeight d.header) ≤ d.header.bodyLen := by
  constructor
  · have step := @tally_set _ _ d.entries v.segs (byteWeight d.header) i e s s.bumped place.entry
      place.seg
    obtain ⟨length, measured, covers⟩ := chunkLen_eq place.parsed follows.counted
      (follows.room admitted.notDone)
    obtain rfl : length = bytes.length := some.inj (measured.symm.trans admitted.length)
    simp only [byteWeight, bumped_next] at step ⊢
    omega
  · refine (tally_le fun e _ s => ?_).trans valid.total.le
    exact covered_le

theorem committed_of_admitted {frame : List UInt8} {reply : Reply}
    (follows : SegmentFollows primitives d history e s) (valid : d.Valid)
    (place : Place v d i e s) (admitted : Admitted primitives v d e s e.segId s.next bytes)
    (message : FrameMessage d.header.fileId frame
      (leafMessage d.header.fileId e.segId s.next bytes)) :
    Committed primitives d (Hashed d.header.fileId (history ++ [(.push frame, reply)])) e
      ⟨e.segId, e.segType, s.next, d.header.segmentOffset s.next,
        asU64 (e.bodyOffset + d.header.segmentOffset s.next), bytes⟩ := by
  have inside := valid.inside (mem_of_getElem? place.entry)
  have bounded := valid.header.bodyLen
  have start := chunkStart_eq place.parsed follows.counted
    (follows.room admitted.notDone)
  have covers : d.header.covered e.storedLen s.next ≤ e.storedLen := covered_le
  have offset : d.header.segmentOffset s.next = d.header.chunkStart s.next := by
    unfold segmentOffset
    unfold chunkStart at start ⊢
    split at start
    · rename_i cs sized
      rw [sized]
      exact asU64_of_lt (by omega)
    · rename_i unsized
      rw [unsized]
      rfl
  refine ⟨rfl, rfl, admitted.length, offset, ?_, fun n counted => ⟨?_, ?_⟩⟩
  · exact asU64_of_lt (by omega)
  · exact ⟨frame, reply, mem_append_right _ mem_cons_self, message⟩
  · obtain rfl : s.n = n := some.inj (follows.counted.symm.trans counted)
    have leaf := admitted.leaf
    cases kept : s.leaves with
    | none =>
      have single : s.n = 1 := by
        by_contra several
        have positive := chunkCount_pos place.parsed follows.counted
        exact admitted.tabled (by omega) kept
      rw [if_pos single]
      rwa [kept] at leaf
    | some flat =>
      obtain ⟨several, hashes, hashed⟩ := follows.table flat kept
      rw [if_neg (by omega)]
      rw [kept] at leaf
      exact ⟨flat, follows.tableLength flat kept, hashes, hashed.mono _, leaf⟩

theorem whole_of_required (follows : Follows primitives d history v)
    (admitted : Admitted primitives v d e s e.segId s.next bytes) {needed : StreamEntry}
    (member : needed ∈ d.entries) (names : e.requiresMask.testBit needed.stage) :
    Whole d (released history) needed := by
  have inside := (follows.valid.fits needed member).stage
  have required := admitted.required needed.stage
    (mem_filter.mpr ⟨mem_range.mpr inside, names⟩)
  rw [follows.stageRemaining _ inside] at required
  obtain ⟨j, below, entry⟩ := getElem_of_mem member
  have entryAt := List.getElem?_eq_some_iff.mpr ⟨below, entry⟩
  have segBelow : j < v.segs.length := follows.length ▸ below
  have segAt := List.getElem?_eq_getElem segBelow
  have weight := weight_of_tally_zero required entryAt segAt
  have record := follows.segment j needed _ entryAt segAt
  have done : v.segs[j].done = true := by
    simpa [stageWeight, openWeight] using weight
  exact ⟨_, record.counted, record.done.mp done ▸ record.indices⟩

theorem Staged.snoc {chunks : List VerifiedChunk} {chunk : VerifiedChunk}
    (staged : Staged d chunks)
    (last : ∀ e ∈ d.entries, e.segId = chunk.segId →
      ∀ needed ∈ d.entries, e.requiresMask.testBit needed.stage → Whole d chunks needed) :
    Staged d (chunks ++ [chunk]) := by
  intro before other after split
  rcases eq_nil_or_concat after with rfl | ⟨middle, final, rfl⟩
  · obtain ⟨rfl, same⟩ := append_inj' split rfl
    obtain rfl := singleton_inj.mp same
    exact last
  · rw [concat_eq_append, ← cons_append, ← append_assoc] at split
    exact staged before other middle (append_inj' split rfl).1

theorem Follows.release {frame : List UInt8} {reply : Reply}
    (follows : Follows primitives d history v) (place : Place v d i e s)
    (admitted : Admitted primitives v d e s e.segId s.next bytes)
    (message : FrameMessage d.header.fileId frame
      (leafMessage d.header.fileId e.segId s.next bytes))
    (advanced : Advanced v d i e s bytes.length next)
    (releases : reply.releases = some ⟨e.segId, e.segType, s.next,
      d.header.segmentOffset s.next, asU64 (e.bodyOffset + d.header.segmentOffset s.next), bytes⟩) :
    Follows primitives d (history ++ [(.push frame, reply)]) next := by
  have record := follows.segment i e s place.entry place.seg
  have member := mem_of_getElem? place.entry
  have valid := follows.valid
  obtain ⟨bytesSum, bytesBound⟩ := bytes_step record valid place admitted
  have bodyBound := valid.header.bodyLen
  have opened := open_step place admitted.notDone
  have openBound := open_le v openWeight openWeight_le valid
  have verified : next.verifiedBytes =
      Foundation.tally d.entries next.segs (byteWeight d.header) := by
    rw [advanced.verifiedBytes, advanced.segs, follows.verifiedBytes, bytesSum]
    exact asU64_of_lt (by omega)
  have sumLt : v.verifiedBytes + bytes.length < 18446744073709551616 := by
    rw [follows.verifiedBytes]
    omega
  exact
    { installed := advanced.desc.trans follows.installed
      valid := valid
      begun := fun awaiting => follows.begun (advanced.begun awaiting)
      length := by rw [advanced.segs, length_set, follows.length]
      segment := by
        intro j other new entry seg
        rw [advanced.segs] at seg
        have outcome := released_snoc history (.push frame, reply)
        rw [releases, toList_some] at outcome
        rcases record_set_cases seg with ⟨rfl, rfl⟩ | ⟨apart, seg⟩
        · obtain rfl : e = other := some.inj (place.entry.symm.trans entry)
          refine ⟨(bumped_n s).symm ▸ record.counted, ?_, bumped_done admitted.notDone, ?_, ?_, ?_⟩
          · rw [bumped_next, bumped_n]
            exact record.room admitted.notDone
          · intro flat some'
            rw [bumped_n]
            exact record.tableLength flat (bumped_leaves some')
          · intro flat some'
            obtain ⟨several, hashes, hashed⟩ := record.table flat (bumped_leaves some')
            rw [bumped_n]
            exact ⟨several, hashes, hashed.mono _⟩
          · rw [outcome, chunkIndices_snoc, if_pos rfl, record.indices, bumped_next,
              range_succ]
        · have before := follows.segment j other new entry seg
          have different : e.segId ≠ other.segId := by
            intro same
            apply apart
            obtain ⟨iBelow, iEntry⟩ := List.getElem?_eq_some_iff.mp place.entry
            obtain ⟨jBelow, jEntry⟩ := List.getElem?_eq_some_iff.mp entry
            exact (List.Nodup.getElem_inj_iff (List.Nodup.of_map _ valid.distinct)).mp
              (iEntry.trans ((valid.unique member (mem_of_getElem? entry) same).trans
                jEntry.symm))
          exact
            { before with
              table := fun flat some' => by
                obtain ⟨several, hashes, hashed⟩ := before.table flat some'
                exact ⟨several, hashes, hashed.mono _⟩
              indices := by
                rw [outcome, chunkIndices_snoc, if_neg different, append_nil]
                exact before.indices }
      left := by
        rw [advanced.left, advanced.segs, follows.left]
        split
        · rw [if_pos ‹s.next + 1 = s.n›] at opened
          unfold asU64
          omega
        · rw [if_neg ‹¬s.next + 1 = s.n›] at opened
          omega
      stageRemaining := by
        intro stage inside
        have stageSum := stage_step place admitted.notDone stage
        have stageBound := open_le v (stageWeight stage) (stageWeight_le stage) valid
        rw [advanced.stageRemaining, advanced.segs]
        by_cases closes : s.next + 1 = s.n
        · rw [if_pos closes] at stageSum ⊢
          by_cases here : e.stage = stage
          · subst here
            rw [if_pos rfl, if_pos rfl] at stageSum
            rw [Function.update_self, follows.stageRemaining _ inside]
            unfold asU32
            omega
          · rw [if_neg here, if_neg here] at stageSum
            rw [Function.update_of_ne (Ne.symm here), follows.stageRemaining _ inside]
            omega
        · rw [if_neg closes] at stageSum ⊢
          rw [follows.stageRemaining _ inside]
          omega
      verifiedBytes := verified
      summed := by
        rw [advanced.verifiedBytes, asU64_of_lt sumLt, released_snoc, releases,
          toList_some, map_append, sum_append, follows.summed]
        rfl
      committed := by
        intro chunk member'
        rw [released_snoc, releases, toList_some, mem_append, mem_singleton] at member'
        rcases member' with earlier | rfl
        · obtain ⟨other, otherIn, committed⟩ := follows.committed chunk earlier
          exact ⟨other, otherIn, committed.mono⟩
        · exact ⟨e, member, committed_of_admitted record valid place admitted message⟩
      staged := by
        rw [released_snoc, releases, toList_some]
        refine follows.staged.snoc fun other otherIn same needed neededIn names => ?_
        obtain rfl := valid.unique otherIn member same
        exact whole_of_required follows admitted neededIn names
      completed := by
        intro ended
        rcases advanced.finished ended with before | ⟨closes, one, fills⟩
        · have finished := (follows.completed before).1
          rw [follows.left] at finished
          have weight := weight_of_tally_zero finished place.entry place.seg
          simp [openWeight, admitted.notDone] at weight
        · refine ⟨?_, by rw [advanced.verifiedBytes, fills]⟩
          rw [advanced.left, if_pos closes, one]
          rfl }

end Releasing

end Steps

/-! ### Installing a descriptor -/

section Install

variable {primitives : Primitives} {d : VerifiedDescriptor} {history : History}
  {v next : StreamVerifier}

/-- A verifier that has no records yet. -/
structure Blank (v : StreamVerifier) : Prop where
  desc : v.desc = none
  segs : v.segs = []
  stageRemaining : v.stageRemaining = fun _ => 0
  verifiedBytes : v.verifiedBytes = 0

/-- The records made for the entries visited so far. -/
structure Opened (h : StreamHeader) (visited : List StreamEntry) (v : StreamVerifier) : Prop where
  segs : v.segs = visited.map (opened h)
  stageRemaining : ∀ stage,
    v.stageRemaining stage = Foundation.tally visited v.segs (stageWeight stage)
  verifiedBytes : v.verifiedBytes = 0

theorem stageWeight_opened (h : StreamHeader) (stage : Nat) (e : StreamEntry) :
    stageWeight stage e (opened h e) = if e.stage = stage then 1 else 0 := rfl

theorem Blank.opened (blank : Blank v) (h : StreamHeader) : Opened h [] v where
  segs := blank.segs
  stageRemaining := by simp [blank.stageRemaining, Foundation.tally]
  verifiedBytes := blank.verifiedBytes

theorem Opened.round {h : StreamHeader} {visited : List StreamEntry} {e : StreamEntry}
    (opened : Opened h visited v) (stage : e.stage < maxStages)
    (few : visited.length < 256 ^ 4 - 1) {Refused : StreamError → StreamVerifier → Prop} :
    (openEntry h e).Ensures v (fun _ next => Opened h (visited ++ [e]) next) Refused := by
  have slot : stageSlot e.stage = some e.stage := if_pos stage
  unfold openEntry
  simp only [ensures_bind, ensures_orPanic, ensures_modify, slot, Option.some.injEq,
    exists_eq_left']
  have segs : (v.openSegment h e e.stage).segs = (visited ++ [e]).map (SegState.opened h) := by
    rw [map_append, ← opened.segs]
    rfl
  refine ⟨segs, fun other => ?_, opened.verifiedBytes⟩
  have before := opened.stageRemaining other
  rw [opened.segs, tally_map] at before
  rw [segs, tally_map, map_append, sum_append, ← before]
  simp only [StreamVerifier.openSegment, map_cons, map_nil, sum_cons, sum_nil,
    Nat.add_zero, stageWeight_opened]
  by_cases here : e.stage = other
  · subst here
    have bound := @tally_le _ _ visited (visited.map (SegState.opened h)) (stageWeight e.stage)
      (fun _ => 1) fun e _ s => stageWeight_le _ e s
    rw [tally_map, ← before, map_const', sum_replicate_nat, mul_one] at bound
    rw [Function.update_self, if_pos rfl]
    unfold asU32
    omega
  · rw [Function.update_of_ne (Ne.symm here), if_neg here, Nat.add_zero]

theorem Opened.follows {here : StreamVerifier} (valid : d.Valid)
    (opened : Opened d.header d.entries here) (nothing : released history = []) :
    Follows primitives d history (here.accept d) where
  installed := rfl
  valid := valid
  begun := by simp [accept]
  length := by simp [accept, opened.segs]
  segment := by
    intro i e s entry seg
    change here.segs[i]? = some s at seg
    rw [opened.segs, List.getElem?_map, entry] at seg
    obtain rfl := some.inj seg
    obtain ⟨n, counted⟩ := (valid.fits e (mem_of_getElem? entry)).counted
    have positive := chunkCount_pos valid.header counted
    have opensAs : SegState.opened d.header e = ⟨n, 0, none, false⟩ := by
      rw [SegState.opened, counted]
      rfl
    rw [opensAs]
    refine ⟨counted, Nat.zero_le n, ?_, ?_, ?_, ?_⟩
    · simp only [Bool.false_eq_true, false_iff]
      omega
    · simp
    · simp
    · rw [nothing]
      rfl
  left := by
    change d.entries.length = Foundation.tally d.entries here.segs openWeight
    rw [opened.segs, tally_map]
    simp [openWeight, SegState.opened]
  stageRemaining stage _ := opened.stageRemaining stage
  verifiedBytes := by
    change here.verifiedBytes = Foundation.tally d.entries here.segs (byteWeight d.header)
    rw [opened.segs, tally_map, opened.verifiedBytes]
    simp [byteWeight, SegState.opened]
  summed := by
    change here.verifiedBytes = _
    rw [nothing, opened.verifiedBytes]
    rfl
  committed := by simp [nothing]
  staged := by simp [nothing, Staged]
  completed := by simp [accept, StreamState.Finished]

theorem install_spec (bytes : List UInt8) (blank : Blank v) :
    (install primitives bytes).Ensures v
      (fun event next => event.releases = none ∧
        ∀ history, released history = [] → ∃ d, Follows primitives d history next)
      fun reason next => next = { v with state := .rejected reason } := by
  unfold install
  simp only [ensures_bind, ensures_get, ensures_attempt]
  apply (decodeDescriptor_spec primitives bytes v.policy v).mono
  · rintro d here ⟨rfl, valid⟩
    simp only [ensures_modify, ensures_pure]
    have walk := @ensures_forM StreamError StreamVerifier _ here
      (fun reason next => next = { here with state := .rejected reason })
      (openEntry d.header) d.entries (Opened d.header) (blank.opened d.header)
      fun visited e rest here split opened => opened.round
        (valid.fits e (by rw [split]; exact mem_append_right _ mem_cons_self)).stage (by
          have count := valid.count
          have bound := valid.header.segCount
          rw [split, length_append, length_cons] at count
          omega)
    apply walk.weaken
    exact fun _ here opened => ⟨rfl, fun history nothing => ⟨d, opened.follows valid nothing⟩⟩
  · rintro reason _ rfl
    rfl

end Install

/-! ### Steps -/

section Runs

variable {primitives : Primitives} {d : VerifiedDescriptor} {history : History}
  {v next : StreamVerifier} {f : List UInt8}

/-- A verifier without a descriptor released nothing and has no records; it
waits for a descriptor or has failed. -/
structure Waiting (history : History) (v : StreamVerifier) : Prop where
  nothing : released history = []
  desc : v.desc = none
  state : v.state = .awaitDescriptor ∧ Blank v ∨ (∃ reason, v.state = .rejected reason) ∨
    ∃ reason, v.state = .poisoned reason

/-- The invariant of a run. -/
def Tracks (primitives : Primitives) (history : History) (v : StreamVerifier) : Prop :=
  Waiting history v ∨ ∃ d, Follows primitives d history v

theorem Waiting.silent {label : Request × Reply} (waiting : Waiting history v)
    (nothing : label.2.releases = none) : Waiting (history ++ [label]) v where
  nothing := by rw [released_snoc, waiting.nothing, nothing]; rfl
  desc := waiting.desc
  state := waiting.state

theorem Waiting.poisonAt (waiting : Waiting history v) (reason : StreamError) (seg : Option Nat)
    (chunk : Nat) : Waiting history (v.poisonAt reason seg chunk) where
  nothing := waiting.nothing
  desc := (quiet_poisonAt v reason seg chunk).desc.trans waiting.desc
  state := by
    unfold StreamVerifier.poisonAt
    rcases waiting.state with ⟨awaiting, _⟩ | ⟨earlier, rejected⟩ | ⟨earlier, poisoned⟩
    · rw [awaiting]
      exact .inr (.inr ⟨reason, rfl⟩)
    · rw [rejected]
      exact .inr (.inl ⟨earlier, rejected⟩)
    · rw [poisoned]
      exact .inr (.inr ⟨reason, rfl⟩)

theorem Waiting.push (waiting : Waiting history v) :
    (push primitives f).Ensures v
      (fun event next => event.releases = none ∧ ∀ history, released history = [] →
        ∃ d, Follows primitives d history next)
      fun _ next => Waiting history next := by
  unfold Rvf.push
  rw [ensures_bind, ensures_get]
  rcases waiting.state with ⟨awaiting, blank⟩ | ⟨earlier, rejected⟩ | ⟨earlier, poisoned⟩
  · simp only [awaiting]
    unfold onFirstFrame
    rw [ensures_bind, ensures_refuseIf]
    refine ⟨fun _ => waiting.poisonAt _ _ _, fun short => ?_⟩
    rw [not_or] at short
    rw [ensures_bind, ensures_u32At (by omega), ensures_bind, ensures_refuseIf]
    refine ⟨fun _ => waiting.poisonAt _ _ _, fun _ => ?_⟩
    apply (install_spec _ blank).mono
    · exact fun _ _ accepted => accepted
    · rintro reason _ rfl
      exact ⟨waiting.nothing, waiting.desc, .inr (.inl ⟨reason, rfl⟩)⟩
  · simp only [rejected, ensures_throw]
    exact waiting
  · simp only [poisoned, ensures_throw]
    exact waiting

theorem Follows.effect {event : Event} (follows : Follows primitives d history v)
    (effect : FrameEffect primitives v d f event next) :
    Follows primitives d (history ++ [(.push f, .event (.ok event))]) next := by
  cases effect with
  | quiet nothing quiet => exact (follows.calm quiet).silent nothing
  | table i e s flat nothing place several _ size hashes message kept =>
    exact follows.kept place several size hashes message kept nothing
  | release i e s bytes releases place admitted message advanced =>
    exact follows.release place admitted message advanced releases

theorem Follows.push (follows : Follows primitives d history v) :
    (push primitives f).Ensures v
      (fun event next => Follows primitives d (history ++ [(.push f, .event (.ok event))]) next)
      fun reason next =>
        Follows primitives d (history ++ [(.push f, .event (.error reason))]) next := by
  have refused : ∀ reason, Follows primitives d
      (history ++ [(.push f, .event (.error reason))]) v := fun _ => follows.silent rfl
  unfold Rvf.push
  rw [ensures_bind, ensures_get]
  have received : (do
      let event ← dispatch primitives f
      modify received
      return event : StreamCall Event).Ensures v
      (fun event next => Follows primitives d (history ++ [(.push f, .event (.ok event))]) next)
      fun reason next =>
        Follows primitives d (history ++ [(.push f, .event (.error reason))]) next := by
    rw [ensures_bind]
    apply (dispatch_spec follows.consistent).mono
    · exact fun event middle effect => (follows.effect effect).calm (quiet_received middle)
    · exact fun reason next quiet => (follows.calm quiet).silent rfl
  split
  · exact refused _
  · exact absurd ‹v.state = .awaitDescriptor› follows.begun
  · exact received
  · exact received
  · exact refused _

theorem Tracks.perform (tracks : Tracks primitives history v) (request : Request) :
    ∃ reply next, v.perform primitives request = some (reply, next) ∧
      Tracks primitives (history ++ [(request, reply)]) next := by
  cases request with
  | push f =>
    rcases tracks with waiting | ⟨d, follows⟩
    · rcases (waiting.push : (push primitives f).Ensures v _ _).outcome with
        ⟨event, next, outcome, nothing, follows⟩ | ⟨reason, next, outcome, waiting⟩
      · refine ⟨.event (.ok event), next, by rw [StreamVerifier.perform, outcome]; rfl, .inr ?_⟩
        apply follows
        rw [released_snoc, waiting.nothing]
        exact congrArg Option.toList nothing
      · exact ⟨.event (.error reason), next, by rw [StreamVerifier.perform, outcome]; rfl,
          .inl (waiting.silent rfl)⟩
    · rcases (follows.push : (push primitives f).Ensures v _ _).outcome with
        ⟨event, next, outcome, after⟩ | ⟨reason, next, outcome, after⟩
      · exact ⟨.event (.ok event), next, by rw [StreamVerifier.perform, outcome]; rfl,
          .inr ⟨d, after⟩⟩
      · exact ⟨.event (.error reason), next, by rw [StreamVerifier.perform, outcome]; rfl,
          .inr ⟨d, after⟩⟩
  | poison reason =>
    refine ⟨_, _, rfl, ?_⟩
    rcases tracks with waiting | ⟨d, follows⟩
    · exact .inl ((waiting.poisonAt reason none 0).silent rfl)
    · exact .inr ⟨d, (follows.calm (quiet_poisonAt v reason none 0)).silent rfl⟩
  | endOfInput =>
    refine ⟨_, _, rfl, ?_⟩
    rcases tracks with waiting | ⟨d, follows⟩
    · have after : Waiting history v.endOfInput.2 := by
        unfold endOfInput
        rcases waiting.state with ⟨state, _⟩ | ⟨_, state⟩ | ⟨_, state⟩ <;> rw [state] <;>
          exact waiting
      exact .inl (after.silent rfl)
    · exact .inr ⟨d, (follows.calm (quiet_endOfInput v)).silent rfl⟩
  | resume =>
    refine ⟨_, _, rfl, ?_⟩
    rcases tracks with waiting | ⟨d, follows⟩
    · have after : Waiting history v.resume.2 := by
        unfold resume
        rcases waiting.state with ⟨state, _⟩ | ⟨_, state⟩ | ⟨_, state⟩ <;>
          simpa [state] using waiting
      exact .inl (after.silent rfl)
    · exact .inr ⟨d, (follows.calm (quiet_resume v)).silent rfl⟩

end Runs

/-! ### The signer's body -/

structure Signs (primitives : Primitives) (h : StreamHeader) (e : StreamEntry)
    (chunks : List (List UInt8)) : Prop where
  count : h.chunkCount e.storedLen = some chunks.length
  single : ∀ bytes, chunks = [bytes] → e.chunkTableHash = primitives.leafHash h.fileId e.segId 0 bytes
  several : chunks.length ≠ 1 → e.chunkTableHash =
    primitives.chunkListHash h.fileId e.segId (primitives.leaves h.fileId e.segId chunks)

def SignerMessage (primitives : Primitives) (h : StreamHeader) (e : StreamEntry)
    (chunks : List (List UInt8)) (message : List UInt8) : Prop :=
  (∃ (idx : Nat) (bytes : List UInt8), chunks[idx]? = some bytes ∧
      message = leafMessage h.fileId e.segId idx bytes) ∨
    message = tableMessage h.fileId e.segId chunks.length
      ((primitives.leaves h.fileId e.segId chunks).map List.Vector.toList).flatten

def CollisionFree (primitives : Primitives) (d : VerifiedDescriptor) (history : History)
    (chunks : StreamEntry → List (List UInt8)) : Prop :=
  Set.InjOn primitives.sha256
    { message | Hashed d.header.fileId history message ∨
      ∃ e ∈ d.entries, SignerMessage primitives d.header e (chunks e) message }

theorem signed_bytes {primitives : Primitives} {d : VerifiedDescriptor} {history : History}
    {chunks : StreamEntry → List (List UInt8)} {e : StreamEntry} {chunk : VerifiedChunk}
    (entry : e ∈ d.entries) (signs : Signs primitives d.header e (chunks e))
    (free : CollisionFree primitives d history chunks)
    (committed : Committed primitives d (Hashed d.header.fileId history) e chunk) :
    (chunks e)[chunk.chunkIndex]? = some chunk.bytes := by
  have inside := chunkLen_some_lt signs.count committed.length
  obtain ⟨leafHashed, vouched⟩ := committed.commits _ signs.count
  have at' := List.getElem?_eq_getElem inside
  have signedLeaf : SignerMessage primitives d.header e (chunks e)
      (leafMessage d.header.fileId e.segId chunk.chunkIndex (chunks e)[chunk.chunkIndex]) :=
    .inl ⟨_, _, at', rfl⟩
  -- Equal leaves are leaves of equal bytes.
  have sameBytes : primitives.leafHash d.header.fileId e.segId chunk.chunkIndex chunk.bytes =
      primitives.leafHash d.header.fileId e.segId chunk.chunkIndex
        (chunks e)[chunk.chunkIndex] → (chunks e)[chunk.chunkIndex]? = some chunk.bytes := by
    intro same
    rw [at', leafMessage_injective (free (.inl leafHashed) (.inr ⟨e, entry, signedLeaf⟩) same)]
  apply sameBytes
  by_cases one : (chunks e).length = 1
  · obtain ⟨bytes, only⟩ := length_eq_one_iff.mp one
    rw [if_pos one, signs.single bytes only] at vouched
    have first : chunk.chunkIndex = 0 := by omega
    simp only [first, only, getElem_cons_zero] at vouched ⊢
    exact vouched
  · rw [if_neg one] at vouched
    obtain ⟨flat, size, hashes, tableHashed, place⟩ := vouched
    have leafCount : (primitives.leaves d.header.fileId e.segId (chunks e)).length =
        (chunks e).length := length_mapIdx
    unfold Primitives.chunkListHashFlat at hashes
    split at hashes
    · cases hashes
    · split at hashes
      · cases hashes
      · rw [show flat.length / 32 = (chunks e).length by omega, signs.several one,
          Primitives.chunkListHash, leafCount] at hashes
        have sameTable := tableMessage_injective
          (free (.inl tableHashed) (.inr ⟨e, entry, .inr rfl⟩) (some.inj hashes))
        have leafAt : (primitives.leaves d.header.fileId e.segId (chunks e))[chunk.chunkIndex]? =
            some (primitives.leafHash d.header.fileId e.segId chunk.chunkIndex
              (chunks e)[chunk.chunkIndex]) := by
          rw [Primitives.leaves, List.getElem?_mapIdx, at']
          rfl
        rw [sameTable, octetsAt_flatten leafAt] at place
        exact (some.inj place).symm

/-! ### The release law -/

/-- What holds in a reached state whose descriptor is `d`. -/
structure ReleaseLaw (primitives : Primitives) (d : VerifiedDescriptor) (history : History)
    (v : StreamVerifier) : Prop where
  /-- Released chunks lie where their entry says and are committed by it. -/
  committed : ∀ chunk ∈ released history, ∃ e ∈ d.entries,
    Committed primitives d (Hashed d.header.fileId history) e chunk
  /-- Without collisions they are the chunks that were signed. -/
  authentic : ∀ chunks : StreamEntry → List (List UInt8),
    (∀ e ∈ d.entries, Signs primitives d.header e (chunks e)) →
    CollisionFree primitives d history chunks →
    ∀ chunk ∈ released history, ∃ e ∈ d.entries, chunk.segId = e.segId ∧
      (chunks e)[chunk.chunkIndex]? = some chunk.bytes
  /-- Chunks of a segment come once and in order, from the first on. -/
  consecutive : ∀ e ∈ d.entries, ∃ n, d.header.chunkCount e.storedLen = some n ∧
    ∃ k ≤ n, chunkIndices (released history) e.segId = List.range k
  /-- No chunk comes before the stages its segment requires. -/
  staged : Staged d (released history)
  /-- The byte count is the sum of the released lengths. -/
  summed : v.verifiedBytes = ((released history).map fun chunk => chunk.bytes.length).sum
  /-- A completed stream released everything. -/
  completed : v.state.Finished →
    (∀ e ∈ d.entries, Whole d (released history) e) ∧ v.verifiedBytes = d.header.bodyLen

/-- How a receiver begins: with a descriptor sent inline or out of band. -/
def Begins (primitives : Primitives) (policy : StreamPolicy) (start : StreamVerifier) : Prop :=
  start = .new policy ∨ ∃ bytes, fromDescriptor primitives bytes policy =
    some (.ok start)

section Law

variable {primitives : Primitives} {policy : StreamPolicy} {d : VerifiedDescriptor}
  {history : History} {start v : StreamVerifier}

theorem blank_new (policy : StreamPolicy) : Blank (.new policy) := ⟨rfl, rfl, rfl, rfl⟩

theorem tracks_begins (begins : Begins primitives policy start) : Tracks primitives [] start := by
  rcases begins with rfl | ⟨bytes, accepted⟩
  · exact .inl ⟨rfl, rfl, .inl ⟨rfl, blank_new policy⟩⟩
  · rcases (install_spec bytes (blank_new policy) :
        (install primitives bytes).Ensures _ _ _).outcome with
      ⟨event, next, outcome, _, follows⟩ | ⟨reason, next, outcome, _⟩
    · rw [fromDescriptor, outcome] at accepted
      cases accepted
      exact .inr (follows [] rfl)
    · rw [fromDescriptor, outcome] at accepted
      cases accepted

theorem tracks_run (begins : Begins primitives policy start)
    (run : Run (Step primitives) start history v) : Tracks primitives history v := by
  refine run.invariant (tracks_begins begins) fun history here label next _ tracks step => ?_
  obtain ⟨reply, after, outcome, kept⟩ := tracks.perform label.1
  have same := some.inj (step.symm.trans outcome)
  obtain ⟨rfl, rfl⟩ := Prod.mk.inj same
  exact kept

theorem Follows.record {e : StreamEntry} (follows : Follows primitives d history v)
    (member : e ∈ d.entries) : ∃ (i : Nat) (s : SegState), d.entries[i]? = some e ∧
      v.segs[i]? = some s ∧ SegmentFollows primitives d history e s := by
  obtain ⟨i, below, entry⟩ := getElem_of_mem member
  have entryAt := List.getElem?_eq_some_iff.mpr ⟨below, entry⟩
  have segAt := List.getElem?_eq_getElem (follows.length ▸ below : i < v.segs.length)
  exact ⟨i, _, entryAt, segAt, follows.segment i e _ entryAt segAt⟩

theorem Follows.releaseLaw (follows : Follows primitives d history v) :
    ReleaseLaw primitives d history v where
  committed := follows.committed
  authentic chunks signs free chunk member := by
    obtain ⟨e, entry, committed⟩ := follows.committed chunk member
    exact ⟨e, entry, committed.segId, signed_bytes entry (signs e entry) free committed⟩
  consecutive e member := by
    obtain ⟨_, s, _, _, record⟩ := follows.record member
    exact ⟨s.n, record.counted, s.next, record.bounded, record.indices⟩
  staged := follows.staged
  summed := follows.summed
  completed ended := by
    obtain ⟨none', total⟩ := follows.completed ended
    refine ⟨fun e member => ?_, total⟩
    obtain ⟨i, s, entryAt, segAt, record⟩ := follows.record member
    have weight := weight_of_tally_zero (follows.left.symm.trans none') entryAt segAt
    have done : s.done = true := by simpa [openWeight] using weight
    exact ⟨s.n, record.counted, record.done.mp done ▸ record.indices⟩

/-- In every run of a receiver no call panics, nothing is released without a
descriptor, and under a descriptor the release law holds. -/
theorem stream_releases (begins : Begins primitives policy start)
    (run : Run (Step primitives) start history v) :
    (∀ request, v.perform primitives request ≠ none) ∧
      (∀ bytes, StreamVerifier.fromDescriptor primitives bytes policy ≠ none) ∧
      (v.desc = none → released history = []) ∧
      ∀ d, v.desc = some d → ReleaseLaw primitives d history v := by
  have tracks := tracks_run begins run
  refine ⟨fun request => ?_, fun bytes => ?_, fun undescribed => ?_, fun d installed => ?_⟩
  · obtain ⟨reply, next, outcome, _⟩ := tracks.perform request
    rw [outcome]
    exact Option.some_ne_none _
  · rcases (install_spec bytes (blank_new policy) :
        (install primitives bytes).Ensures _ _ _).outcome with
      ⟨_, _, outcome, _⟩ | ⟨_, _, outcome, _⟩ <;>
    · rw [StreamVerifier.fromDescriptor, outcome]
      exact Option.some_ne_none _
  · rcases tracks with waiting | ⟨d, follows⟩
    · exact waiting.nothing
    · rw [follows.installed] at undescribed
      cases undescribed
  · rcases tracks with waiting | ⟨other, follows⟩
    · rw [waiting.desc] at installed
      cases installed
    · obtain rfl : other = d := some.inj (follows.installed.symm.trans installed)
      exact follows.releaseLaw

/-! ### A complete stream -/

theorem run_performAll {requests : List Request}
    (outcome : v.performAll primitives requests = some (history, start)) :
    Run (Step primitives) v history start := by
  induction requests generalizing v history with
  | nil =>
    obtain ⟨rfl, rfl⟩ := Prod.mk.inj (some.inj outcome)
    exact .nil
  | cons request rest ih =>
    obtain ⟨⟨reply, next⟩, performed, later⟩ := bind_eq_some_iff.mp outcome
    obtain ⟨⟨tail, final⟩, followed, packed⟩ := bind_eq_some_iff.mp later
    obtain ⟨rfl, rfl⟩ := Prod.mk.inj (some.inj packed)
    exact (Run.single performed).append (ih followed)

def samplePrimitives : Primitives where
  sha256 message := littleEndianOctets 32 (littleEndianValue (message ++ [1]) % (2 ^ 256 - 189))
  verifyStrict publicKey _ signature := signature.toList = publicKey.toList ++ publicKey.toList

def sampleKey : Octets 32 := List.Vector.replicate 32 7

def sampleFile : Octets 16 := List.Vector.replicate 16 3

/-- The chunks of segment 42, and of segment 43, which waits for the stage of 42. -/
def sampleChunks : List VerifiedChunk :=
  [⟨42, 0x07, 0, 0, 0, List.replicate 64 9⟩, ⟨43, 0x07, 0, 0, 64, List.replicate 4096 9⟩,
    ⟨43, 0x07, 1, 4096, 4160, [8]⟩]

def sampleLeaves (segId : Nat) : List (Octets 32) :=
  (sampleChunks.filter fun chunk => chunk.segId = segId).map fun chunk =>
    samplePrimitives.leafHash sampleFile segId chunk.chunkIndex chunk.bytes

def sampleRow (segId : Nat) (stage : UInt8) (requires bodyOffset storedLen : Nat)
    (committed : Octets 32) : List UInt8 :=
  littleEndianBytes 8 segId ++ [0x07, stage, 0, 0] ++ littleEndianBytes 4 requires ++
    littleEndianBytes 8 bodyOffset ++ littleEndianBytes 8 storedLen ++ littleEndianBytes 8 0 ++
    committed.toList

def sampleDescriptor : List UInt8 :=
  magic ++ littleEndianBytes 2 version ++ littleEndianBytes 2 flagChunked ++ [1, 12] ++
    List.replicate 6 0 ++ sampleFile.toList ++ littleEndianBytes 8 1 ++ littleEndianBytes 8 4161 ++
    List.replicate 32 0 ++ List.replicate 32 5 ++ littleEndianBytes 4 2 ++
    littleEndianBytes 4 144 ++ littleEndianBytes 8 0 ++
    (samplePrimitives.signerKeyId sampleKey).toList ++ List.replicate 8 0 ++
    sampleRow 42 0 0 0 64 ((sampleLeaves 42).headD (.zero 32)) ++
    sampleRow 43 1 1 64 4097 (samplePrimitives.chunkListHash sampleFile 43 (sampleLeaves 43)) ++
    littleEndianBytes 2 64 ++ sampleKey.toList ++ sampleKey.toList

def sampleFrame (chunk : VerifiedChunk) : Request :=
  .push (frameChunk :: (littleEndianBytes 8 chunk.segId ++ littleEndianBytes 4 chunk.chunkIndex ++
    littleEndianBytes 4 chunk.bytes.length ++ chunk.bytes))

/-- Segment 43 is refused while the stage of 42 is open, and accepted after it. -/
def sampleRequests : List Request :=
  [.push (frameDescriptor :: (littleEndianBytes 4 354 ++ sampleDescriptor)), .endOfInput, .resume,
    .push (frameChunkTable :: (littleEndianBytes 8 43 ++ littleEndianBytes 4 2 ++
      (sampleLeaves 43).flatMap List.Vector.toList))] ++
    (sampleChunks.drop 1 ++ sampleChunks).map sampleFrame

def sampleStream : Option (History × StreamVerifier) :=
  (StreamVerifier.new (.new [sampleKey] .unpinned)).performAll samplePrimitives sampleRequests

theorem sampleStream_completes :
    sampleStream.map (fun outcome => (released outcome.1, outcome.2.state)) =
      some (sampleChunks, .complete) := by
  decide +kernel

theorem stream_releases_sampleStream : ∃ history v d, sampleStream = some (history, v) ∧
    v.state = .complete ∧ released history = sampleChunks ∧
    v.desc = some d ∧ ReleaseLaw samplePrimitives d history v := by
  obtain ⟨⟨history, v⟩, outcome, facts⟩ := Option.map_eq_some_iff.mp sampleStream_completes
  obtain ⟨chunks, state⟩ := Prod.mk.inj facts
  obtain ⟨_, _, undescribed, law⟩ := stream_releases (.inl rfl) (run_performAll outcome)
  cases described : v.desc with
  | none =>
    rw [undescribed described] at chunks
    cases chunks
  | some d => exact ⟨history, v, d, outcome, state, chunks, described, law d described⟩

end Law

end Rvm.Rvf
