import Rvm.Context.Profile
import Rvm.Context.Receipt

/-!
Owns that the wire formats of the context are bijective: profiles and signed receipts are
read back from their encodings, and what is read is encoded as it was.
-/

namespace Rvm.Context

open ContextEpochReceipt

open Foundation Foundation.Call Witness List DerivedView SignedContextEpochReceipt

namespace ProfileView

def provenance (view : ProfileView) : List (Octets 32) :=
  match view.derived with
  | some derived => derived.digests.map Revision.bytes
  | none => List.replicate 5 (.zero 32)

def flag (view : ProfileView) : UInt8 := if view.derived.isSome then 1 else 0

def fields (view : ProfileView) : List (List UInt8) :=
  [[viewCode view.view], [view.flag], [0, 0], littleEndianBytes 8 view.segmentId,
    view.payload.bytes.toList] ++ view.provenance.map List.Vector.toList

def widths : List Nat := [1, 1, 2, 8, 32, 32, 32, 32, 32, 32]

structure Recordable (view : ProfileView) : Prop where
  segmentId : view.segmentId ≤ u64Max
  provenance : ∀ derived ∈ view.derived, derived.digests.any isZero = false

variable {view : ProfileView} {data : List UInt8}

theorem encodeView_eq (view : ProfileView) : encodeView view = view.fields.flatten := by
  obtain ⟨kind, segmentId, payload, derived⟩ := view
  cases derived with
  | none => simp [encodeView, fields, provenance, flag, Octets.zero]
  | some derived => simp [encodeView, fields, provenance, flag, digests]

theorem map_length_fields (view : ProfileView) : view.fields.map List.length = widths := by
  obtain ⟨kind, segmentId, payload, derived⟩ := view
  cases derived with
  | none => simp [fields, provenance, widths, littleEndianBytes_length]
  | some derived =>
    simp [fields, provenance, widths, littleEndianBytes_length, digests]

theorem cut_encodeView (view : ProfileView) : cut widths (encodeView view) = view.fields := by
  have joined := cut_flatten view.fields []
  rwa [append_nil, map_length_fields, ← encodeView_eq] at joined

theorem encodeView_length (view : ProfileView) : (encodeView view).length = viewRecordSize := by
  rw [encodeView_eq, length_flatten, map_length_fields]
  rfl

end ProfileView

theorem viewOfCode_viewCode (view : ProgressiveView) : viewOfCode (viewCode view) = some view := by
  cases view <;> rfl

theorem decodeView_encodeView {view : ProfileView} (recordable : view.Recordable) :
    (decodeView (encodeView view)).Ensures () (fun decoded _ => decoded = view)
      fun _ _ => False := by
  have long := view.encodeView_length
  have places := view.cut_encodeView
  generalize encodeView view = data at long places
  unfold viewRecordSize at long
  obtain ⟨kind, segmentId, payload, derived⟩ := view
  have fits : segmentId < 256 ^ 8 := Nat.lt_succ_of_le recordable.segmentId
  simp only [ProfileView.widths, ProfileView.fields, cut, drop_drop, Nat.reduceAdd,
    cons_append, nil_append, List.cons.injEq] at places
  obtain ⟨isCode, isFlag, reserved, isSegment, isPayload, provenance⟩ := places
  have code := @getElem?_of_take data 0 _ isCode
  have flag := getElem?_of_take isFlag
  have zeros := sliceAt_of_take (by omega) reserved
  have segment := littleEndianAt_of_take (by omega) isSegment fits
  have digest := octetsAt_of_take (by omega) isPayload
  have sized : data.length = viewRecordSize := long
  simp only [decodeView, digestAt, ensures_bind, ensures_throwIf, ensures_orPanic, ensures_orThrow,
    ensures_ite, ensures_pure, ensures_throw, ensures_orRefusal, code, flag, zeros, segment, digest,
    Option.some.injEq, exists_eq_left', viewOfCode_viewCode, sized]
  cases derived with
  | none =>
    have absent : ∀ byte ∈ (data.take viewRecordSize).drop 44, byte = 0 := by
      have split := @flatten_cut _ [32, 32, 32, 32, 32] (data.drop 44) (by simp [long])
      simp only [cut, drop_drop, Nat.reduceAdd] at split
      rw [provenance] at split
      rw [take_of_length_le (Nat.le_of_eq sized), ← split]
      intro byte member
      obtain ⟨digest, among, inside⟩ := mem_flatten.mp member
      obtain ⟨zero, isZero, rfl⟩ := mem_map.mp among
      rw [eq_of_mem_replicate isZero] at inside
      exact eq_of_mem_replicate inside
    have inside := @sliceAt_eq data 44 viewRecordSize (by decide) (Nat.le_of_eq sized.symm)
    simp [ProfileView.flag, inside]
    exact absent
  | some derived =>
    have nonzero := recordable.provenance derived rfl
    simp only [ProfileView.provenance, digests, map_cons, map_nil,
      List.cons.injEq, and_true] at provenance
    obtain ⟨isSource, isGenerator, isModel, isPrompt, isPolicy⟩ := provenance
    simp [ProfileView.flag, octetsAt_of_take (by omega) isSource,
      octetsAt_of_take (by omega) isGenerator, octetsAt_of_take (by omega) isModel,
      octetsAt_of_take (by omega) isPrompt, octetsAt_of_take (by omega) isPolicy]
    have again : DerivedView.new derived.source derived.generator derived.model derived.prompt
        derived.policy = .ok derived := if_neg (Bool.eq_false_iff.mp nonzero)
    exact ⟨fun value made => Except.ok.inj (made.symm.trans again),
      fun reason refused => by cases refused.symm.trans again⟩

def ViewLe (left right : ProfileView) : Prop := compare left.view right.view ≠ .gt

instance : DecidableRel ViewLe := fun _ _ => inferInstanceAs (Decidable (_ ≠ _))

instance : Std.Total ViewLe where
  total left right := by
    unfold ViewLe
    cases left.view <;> cases right.view <;> decide

instance : IsTrans ProfileView ViewLe where
  trans left middle right := by
    unfold ViewLe
    cases left.view <;> cases middle.view <;> cases right.view <;> decide

namespace ContextProfile

variable {views : List ProfileView} {profile : ContextProfile}

theorem new_eq_ok : new views = .ok profile ↔ profile.views = views.insertionSort ViewLe := by
  obtain ⟨sorted, passed⟩ := profile
  simp only [new]
  split
  · rename_i alsoPassed
    simp only [Except.ok.injEq, mk.injEq]
    exact eq_comm
  · rename_i e failed
    refine iff_of_false nofun fun same => ?_
    rw [same] at passed
    exact nomatch failed.symm.trans passed

theorem pairwise_of_new (built : new views = .ok profile) : profile.views.Pairwise ViewLe := by
  rw [new_eq_ok.mp built]
  exact pairwise_insertionSort ViewLe views

theorem new_views (built : new views = .ok profile) : new profile.views = .ok profile := by
  rw [new_eq_ok, (pairwise_of_new built).insertionSort_eq]

theorem views_length (profile : ContextProfile) :
    profile.views.length ≠ 0 ∧ profile.views.length ≤ maxViews := by
  have passed := profile.passed
  unfold checkViews at passed
  split at passed
  · cases passed
  · rename_i count
    simp only [Bool.or_eq_true, List.isEmpty_iff, decide_eq_true_eq, not_or] at count
    exact ⟨fun empty => count.1 (List.eq_nil_of_length_eq_zero empty), Nat.not_lt.mp count.2⟩

theorem forM_eq_ok {check : ProfileView → Except ContextProfileError Unit}
    (passed : views.forM check = .ok ()) : ∀ view ∈ views, check view = .ok () := by
  induction views with
  | nil => exact fun _ member => (not_mem_nil member).elim
  | cons head rest ih =>
    change (check head >>= fun _ => rest.forM check) = .ok () at passed
    cases first : check head with
    | error e =>
      rw [first] at passed
      cases passed
    | ok value =>
      rw [first] at passed
      exact forall_mem_cons.mpr ⟨first, ih passed⟩

theorem passed_cases (profile : ContextProfile) :
    (¬(profile.views.zip profile.views.tail).any fun pair => pair.1.view == pair.2.view) ∧
      ∃ content, profile.views.find? (fun view => view.view == .content) = some content ∧
        content.derived = none ∧ ∀ view ∈ profile.views, checkDerived content view = .ok () := by
  have passed := profile.passed
  unfold checkViews at passed
  split at passed
  · cases passed
  · split at passed
    · cases passed
    · rename_i distinct
      refine ⟨distinct, ?_⟩
      cases segments : checkSegments [] profile.views with
      | error e =>
        rw [segments] at passed
        cases passed
      | ok value =>
        cases found : profile.views.find? fun view => view.view == .content with
        | none =>
          rw [segments, found] at passed
          cases passed
        | some content =>
          rw [segments, found] at passed
          change (if content.derived.isSome then .error .invalidProvenance
            else profile.views.forM (checkDerived content)) = Except.ok () at passed
          split at passed
          · cases passed
          · rename_i underived
            exact ⟨content, rfl, Option.not_isSome_iff_eq_none.mp underived, forM_eq_ok passed⟩

theorem eq_content {content view : ProfileView} (sorted : views.Pairwise ViewLe)
    (distinct : ¬(views.zip views.tail).any fun pair => pair.1.view == pair.2.view)
    (found : views.find? (fun view => view.view == .content) = some content)
    (member : view ∈ views) (isContent : view.view = .content) : view = content := by
  induction views with
  | nil => cases member
  | cons head rest ih =>
    rw [pairwise_cons] at sorted
    by_cases first : head.view = .content
    · obtain rfl : rest = [] := by
        cases rest with
        | nil => rfl
        | cons next rest =>
          have below := sorted.1 next mem_cons_self
          have same : head.view = next.view := by
            unfold ViewLe at below
            rw [first] at below ⊢
            revert below
            cases next.view <;> decide
          exact absurd (by simp [same]) distinct
      simp only [List.find?_cons, first, beq_self_eq_true, Option.some.injEq] at found
      rw [mem_singleton.mp member, found]
    · have later : (head.view == ProgressiveView.content) = false := beq_false_of_ne first
      rw [List.find?_cons, later] at found
      have others : ¬(rest.zip rest.tail).any fun pair => pair.1.view == pair.2.view := by
        cases rest with
        | nil => exact Bool.false_ne_true
        | cons next rest =>
          simp only [tail_cons, zip_cons_cons, any_cons, Bool.or_eq_true, not_or] at distinct
          exact distinct.2
      rcases mem_cons.mp member with rfl | member
      · exact absurd isContent first
      · exact ih sorted.2 others found member

theorem checkDerived_eq_ok {content view : ProfileView}
    (passed : checkDerived content view = .ok ()) (notContent : view.view ≠ .content) :
    ∀ derived ∈ view.derived, derived.digests.any isZero = false := by
  intro derived isDerived
  rw [checkDerived, if_neg notContent, Option.mem_def.mp isDerived] at passed
  simp only at passed
  split at passed
  · cases passed
  · rename_i nonzero
    exact Bool.eq_false_iff.mpr nonzero

theorem recordable_of_new (built : new views = .ok profile)
    (typed : ∀ view ∈ profile.views, view.segmentId ≤ u64Max) :
    ∀ view ∈ profile.views, view.Recordable := by
  intro view member
  obtain ⟨distinct, content, found, underived, checked⟩ := profile.passed_cases
  refine ⟨typed view member, ?_⟩
  by_cases isContent : view.view = .content
  · rw [eq_content (pairwise_of_new built) distinct found member isContent, underived]
    exact fun _ absent => nomatch absent
  · exact checkDerived_eq_ok (checked view member) isContent

theorem length_records (views : List ProfileView) :
    (views.flatMap encodeView).length = views.length * viewRecordSize := by
  induction views with
  | nil => rfl
  | cons head rest ih =>
    rw [flatMap_cons, length_append, head.encodeView_length, ih,
      length_cons, Nat.succ_mul, Nat.add_comm]

theorem record_at {i : Nat} {view : ProfileView} (found : views[i]? = some view) :
    ((views.flatMap encodeView).drop (i * viewRecordSize)).take viewRecordSize =
      encodeView view := by
  induction views generalizing i with
  | nil => cases found
  | cons head rest ih =>
    rw [flatMap_cons]
    cases i with
    | zero =>
      obtain rfl := Option.some.inj found
      rw [Nat.zero_mul, drop_zero, take_left' head.encodeView_length]
    | succ i =>
      rw [Nat.succ_mul, Nat.add_comm, ← drop_drop, drop_left' head.encodeView_length]
      exact ih found

theorem toBytes_length (profile : ContextProfile) :
    profile.toBytes.length = profileHeaderSize + profile.views.length * viewRecordSize := by
  rw [toBytes, length_append, length_records]
  rfl

theorem drop_header (profile : ContextProfile) :
    profile.toBytes.drop profileHeaderSize = profile.views.flatMap encodeView := rfl

theorem decodeViewAt_toBytes {i : Nat} {view : ProfileView} (found : profile.views[i]? = some view)
    (recordable : view.Recordable) :
    (decodeViewAt profile.toBytes i).Ensures () (fun decoded _ => profile.views[i]? = some decoded)
      fun _ _ => False := by
  have below := (List.getElem?_eq_some_iff.mp found).1
  have inside :
      profileHeaderSize + i * viewRecordSize + viewRecordSize ≤ profile.toBytes.length := by
    have whole : (i + 1) * viewRecordSize ≤ profile.views.length * viewRecordSize :=
      Nat.mul_le_mul_right _ below
    rw [toBytes_length]
    rw [Nat.succ_mul] at whole
    omega
  have record :
      (profile.toBytes.drop (profileHeaderSize + i * viewRecordSize)).take viewRecordSize =
        encodeView view := by
    rw [← drop_drop, drop_header, record_at found]
  simp only [decodeViewAt, ensures_bind, ensures_orPanic, sliceAt_of_take inside record,
    Option.some.injEq, exists_eq_left']
  apply (decodeView_encodeView recordable).weaken
  rintro _ _ rfl
  exact found

theorem eq_of_inOrder {others : List ProfileView}
    (inOrder : List.Forall₂ (fun i view => views[i]? = some view) (List.range views.length)
      others) :
    others = views := by
  have lengths : others.length = views.length := by
    rw [← inOrder.length_eq, length_range]
  apply ext_getElem lengths
  intro i inside _
  have here := inOrder.get (by rw [length_range, ← lengths]; exact inside) inside
  simp only [get_eq_getElem, getElem_range] at here
  exact (List.getElem?_eq_some_iff.mp here).2.symm

theorem fromBytes_toBytes (built : new views = .ok profile)
    (typed : ∀ view ∈ profile.views, view.segmentId ≤ u64Max) :
    (fromBytes profile.toBytes).Ensures () (fun decoded _ => decoded = profile)
      fun _ _ => False := by
  have long := profile.toBytes_length
  have few := profile.views_length
  unfold maxViews at few
  have count : (UInt8.ofNat profile.views.length).toNat = profile.views.length := by
    rw [UInt8.toNat_ofNat', Nat.mod_eq_of_lt (by omega)]
  have short : ¬profile.toBytes.length < profileHeaderSize := by
    rw [long]
    omega
  have magic : sliceAt profile.toBytes 0 4 = some contextProfileMagic := rfl
  have version : profile.toBytes[4]? = some contextProfileVersion := rfl
  have reserved : sliceAt profile.toBytes 6 8 = some [0, 0] := rfl
  have counted : profile.toBytes[5]? = some (UInt8.ofNat profile.views.length) := rfl
  simp only [fromBytes, ensures_bind, ensures_throwIf, ensures_orPanic, ensures_orRefusal,
    ensures_pure, magic, version, reserved, counted, Option.some.injEq, exists_eq_left']
  refine ⟨short, fun _ => ⟨fun wrong => wrong rfl, fun _ => ⟨fun wrong => wrong rfl, fun _ =>
    ⟨fun wrong => wrong rfl, fun _ => ?_⟩⟩⟩⟩
  rw [count]
  refine ⟨fun wrong => ?_, fun _ => ?_⟩
  · rcases wrong with none | many | odd
    · exact few.1 none
    · exact absurd few.2 (Nat.not_le.mpr many)
    · exact odd long
  have rounds : ∀ i ∈ List.range profile.views.length, (decodeViewAt profile.toBytes i).Ensures ()
      (fun decoded _ => profile.views[i]? = some decoded) fun _ _ => False := by
    intro i member
    have below := mem_range.mp member
    have found := List.getElem?_eq_getElem below
    exact decodeViewAt_toBytes found
      (recordable_of_new built typed _ (getElem_mem below))
  apply (ensures_mapM_inOrder rounds).weaken
  intro views _ inOrder
  rw [eq_of_inOrder inOrder, new_views built]
  simp

theorem fromBytes_spec (data : List UInt8) :
    (fromBytes data).Ensures () (fun profile _ => profile.toBytes = data) fun _ _ => True := by
  have returns := fromBytes_returns data
  simp only [fromBytes, ensures_bind, ensures_throwIf, ensures_orPanic, ensures_orRefusal,
    ensures_pure, implies_true, true_and, and_true, not_not, imp_self] at returns ⊢
  exact returns

end ContextProfile

/-- Every value is decoded from its encoding and everything decoded is encoded as it was, so that
no byte is ignored. -/
structure BijectiveFormat {α ε : Type} (Value : α → Prop) (encode : α → List UInt8)
    (decode : List UInt8 → Call ε Unit α) : Prop where
  decodes : ∀ value, Value value → ∀ data, encode value = data →
    (decode data).Ensures () (fun decoded _ => decoded = value) fun _ _ => False
  encodes : ∀ data,
    (decode data).Ensures () (fun value _ => encode value = data) fun _ _ => True
  oneEncoding : ∀ first second value, (decode first).runFrom () = some (.ok value, ()) →
    (decode second).runFrom () = some (.ok value, ()) → first = second

theorem BijectiveFormat.of_encodes {α ε : Type} {Value : α → Prop} {encode : α → List UInt8}
    {decode : List UInt8 → Call ε Unit α}
    (decodes : ∀ value, Value value → ∀ data, encode value = data →
      (decode data).Ensures () (fun decoded _ => decoded = value) fun _ _ => False)
    (encodes : ∀ data,
      (decode data).Ensures () (fun value _ => encode value = data) fun _ _ => True) :
    BijectiveFormat Value encode decode where
  decodes := decodes
  encodes := encodes
  oneEncoding first second value accepted also := by
    have left := encodes first
    have right := encodes second
    rw [Ensures, accepted] at left
    rw [Ensures, also] at right
    exact left.symm.trans right

def BuiltProfile (profile : ContextProfile) : Prop :=
  ∃ views, ContextProfile.new views = .ok profile ∧
    ∀ view ∈ views, view.segmentId ≤ u64Max

def SealedReceipt (sha256 : List UInt8 → Octets 32) (hasher : ChainHasher)
    (signed : SignedContextEpochReceipt) : Prop :=
  ∃ epochId checkpoint records previousReceipt commitments receipt signer,
    sealRecords sha256 hasher epochId checkpoint records previousReceipt
        commitments = .ok receipt ∧
      epochId ≤ u64Max ∧ checkpoint.chainHash ≤ u64Max ∧
      (∀ record ∈ records, record.timestampNs ≤ u64Max) ∧ signed = receipt.sign sha256 signer

theorem SealedReceipt.wellFormed {sha256 : List UInt8 → Octets 32} {hasher : ChainHasher}
    {signed : SignedContextEpochReceipt} (sealedReceipt : SealedReceipt sha256 hasher signed) :
    signed.WellFormed := by
  obtain ⟨epochId, checkpoint, records, previousReceipt, commitments, receipt, signer, sealing,
    epochFits, hashFits, timed, isSigned⟩ := sealedReceipt
  obtain ⟨first, rest, isCons, seals⟩ := seals_of_sealRecords sealing
  have bounds := timestampBounds_timed timed
  rw [isCons, ← seals.bounds] at bounds
  rw [isSigned]
  exact wellFormed_sign seals signer epochFits hashFits bounds.1 bounds.2

theorem wireFormatsBijective (sha256 : List UInt8 → Octets 32) (hasher : ChainHasher) :
    BijectiveFormat (SealedReceipt sha256 hasher) toBytes
        fromBytes ∧
      BijectiveFormat BuiltProfile ContextProfile.toBytes ContextProfile.fromBytes := by
  constructor
  · apply BijectiveFormat.of_encodes
    · exact fun signed sealedReceipt data =>
        fromBytes_toBytes sealedReceipt.wellFormed
    · exact fun data => (fromBytes_spec data).weaken
        fun _ _ decoded => decoded.2
  · apply BijectiveFormat.of_encodes
    · rintro profile ⟨views, built, typed⟩ _ rfl
      apply ContextProfile.fromBytes_toBytes built
      intro view member
      rw [ContextProfile.new_eq_ok.mp built] at member
      exact typed view ((List.mem_insertionSort ViewLe).mp member)
    · exact ContextProfile.fromBytes_spec

end Rvm.Context
