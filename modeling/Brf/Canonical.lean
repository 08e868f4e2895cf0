import Brf.CodecLaws
import Brf.Lib.Accepting

/-!
# One encoding for each record

What the durable decoders do on every byte string, not only on the output of an encoder. Each of them
accepts exactly the encodings of the values within its bounds, which are those of
`Brf.CodecLaws`; so a truncated, extended or otherwise altered encoding is refused or is the encoding
of another value.

* A proof goes through the fields of the decoder in order: `accepts_field` with the field of the
  record, `accepts_check`, `accepts_done` at the end.

Results: `ExactCodec` of every durable type; `decodeRecord_exact`.
-/

namespace Brf

open Brf.Lib

/-- A decoder that accepts exactly the encodings of the values within its bounds. -/
class ExactCodec (α : Type) [Codec α] [LawfulCodec α] : Prop where
  accepts : Accepts (decode : Reader Error α) encode Bounded

export ExactCodec (accepts)

/-! ## Primitives -/

instance : ExactCodec Byte where
  accepts := accepts_word (fun v => v.val) (fun v => v.isLt) (fun v => Word.cast_val v)
    fun _ hv => Nat.mod_eq_of_lt hv

instance : ExactCodec (Word 16) where
  accepts := accepts_word (fun v => v.val) (fun v => v.isLt) (fun v => Word.cast_val v)
    fun _ hv => Nat.mod_eq_of_lt hv

instance : ExactCodec (Word 32) where
  accepts := accepts_word (fun v => v.val) (fun v => v.isLt) (fun v => Word.cast_val v)
    fun _ hv => Nat.mod_eq_of_lt hv

instance : ExactCodec (Word 64) where
  accepts := accepts_word (fun v => v.val) (fun v => v.isLt) (fun v => Word.cast_val v)
    fun _ hv => Nat.mod_eq_of_lt hv

instance : ExactCodec I64 where
  accepts := accepts_map (accepts (α := Word 64))
    (fun v => iff_of_true trivial ⟨v.toWord, trivial, (I64.ofWord_toWord v).symm⟩)
    fun raw _ => congrArg encode (I64.toWord_ofWord raw)

instance : ExactCodec Identity128 where
  accepts := accepts_map (accepts_take 16 (truncated "byte range"))
    (fun v => iff_of_true trivial ⟨v.bytes, v.bytes_length, (Identity128.fromBytes_bytes v).symm⟩)
    fun _ len => Identity128.bytes_fromBytes len

/-- The byte of a flag. -/
def flagByte (v : Bool) : Byte := if v then 1 else 0

theorem flagByte_eq_iff {v : Bool} {raw : Byte} :
    flagByte v = raw ↔ ¬ 1 < raw.val ∧ v = decide (raw.val = 1) := by
  constructor
  · rintro rfl
    cases v <;> exact ⟨by decide, rfl⟩
  · rintro ⟨flag, rfl⟩
    apply Fin.ext
    by_cases one : raw.val = 1
    · simp [flagByte, one]
    · have zero : raw.val = 0 := by omega
      simp [flagByte, zero]

instance : ExactCodec Bool where
  accepts := by
    have whole := accepts_bind (q := fun _ => True) flagByte (accepts (α := Byte))
      fun raw _ => (accepts_failIf (c := 1 < raw.val)
        (e := makeError .corrupt "boolean field must be 0 or 1")
        (accepts_pure (decide (raw.val = 1)))).congr
          (fun v => by simp [flagByte_eq_iff]) fun _ _ => rfl
    exact whole.congr (fun v => by simp [Bounded]) fun v _ => List.append_nil _

/-- A count within a bound of 32 bits denotes one length. -/
theorem count_eq_iff {bound n : Nat} (small : bound < 4294967296) {count : Word 32} :
    decide (bound < count.val) = false ∧ n = count.val ↔ Word.cast 32 n = count ∧ n ≤ bound := by
  rw [decide_eq_false_iff_not, not_lt]
  constructor
  · rintro ⟨inside, rfl⟩
    exact ⟨Word.cast_val count, inside⟩
  · rintro ⟨rfl, inside⟩
    have same : (Word.cast 32 n).val = n := Nat.mod_eq_of_lt (by omega)
    rw [same]
    exact ⟨inside, rfl⟩

theorem accepts_text {bound : Nat} (small : bound < 4294967296) :
    Accepts (decodeText bound) encodeText fun text => text.length ≤ bound := by
  have whole := accepts_bind (fun text : Text => (Word.cast 32 text.length : Word 32)) accepts
    fun count _ => (accepts_failIf (c := bound < count.val)
      (e := makeError .resourceExhausted "length-prefixed field exceeds its bound")
      (accepts_take count.val (truncated "byte range"))).congr
        (fun text => count_eq_iff small) fun _ _ => rfl
  exact whole.congr (fun text => by simp [Bounded]) fun _ _ => rfl

/-- The text of a name is either absent or checked. -/
theorem accepts_parse {capacity : Nat} (raw : Text) :
    Accepts (if raw.isEmpty then pure default else (parse raw : Reader Error (FixedName capacity)))
      (fun _ => []) fun name => name.text = raw := by
  by_cases absent : raw = []
  · subst absent
    refine (accepts_pure default).congr (fun name => ?_) fun _ _ => rfl
    exact ⟨fun same => same ▸ rfl, fun same => FixedName.ext' same⟩
  · rw [if_neg (by simpa using absent), parse]
    cases checked : (FixedName.fromString raw : Result (FixedName capacity)) with
    | error e =>
      refine (accepts_throw e _).congr (fun name => ?_) fun _ _ => rfl
      simp only [false_iff]
      rintro rfl
      rw [FixedName.fromString_text absent] at checked
      cases checked
    | ok found =>
      have same := FixedName.text_of_fromString checked
      refine (accepts_pure found).congr (fun name => ?_) fun _ _ => rfl
      rw [← same]
      exact ⟨fun h => h ▸ rfl, fun h => FixedName.ext' h⟩

theorem accepts_name {capacity : Nat} (small : capacity < 4294967296) :
    Accepts (decode : Reader Error (FixedName capacity)) encode Bounded := by
  have whole := accepts_bind (q := fun _ => True)
    (fun name : FixedName capacity => name.text) (accepts_text small)
    fun raw _ => (accepts_parse raw).congr (fun name => by rw [and_true]) fun _ _ => rfl
  exact whole.congr (fun name => by simp [Bounded, name.length_le]) fun name _ => List.append_nil _

instance : ExactCodec (FixedName 64) := ⟨accepts_name (by decide)⟩
instance : ExactCodec (FixedName 48) := ⟨accepts_name (by decide)⟩

instance {α : Type} [Codec α] [LawfulCodec α] [ExactCodec α] : ExactCodec (Option α) where
  accepts := by
    have whole := accepts_bind (q := fun v : Option α => ∀ a ∈ v, Bounded a)
      (t := fun v => (v.map encode).getD []) Option.isSome (accepts (α := Bool))
      (f := fun present => if present then some <$> decode else pure none) ?_
    · refine whole.congr (fun v => by simp [Bounded]) fun v _ => ?_
      cases v with
      | none => exact List.append_nil _
      | some a => rfl
    intro present _
    cases present with
    | false =>
      refine (accepts_pure none).congr (fun v => ?_) fun v absent => ?_
      · cases v <;> simp
      · obtain rfl := Option.isNone_iff_eq_none.mp (by simpa using absent.1)
        rfl
    | true =>
      refine accepts_map accepts (fun v => ?_) fun _ _ => rfl
      cases v <;> simp

/-! ## Lists -/

theorem accepts_listWith {α : Type} {item : α → Text} {d : Reader Error α} {ok : α → Prop}
    (hd : Accepts d item ok) : Accepts (decodeListWith d) (encodeListWith item)
      fun items => items.length ≤ maxCollectionItems ∧ ∀ a ∈ items, ok a := by
  have whole := accepts_bind (q := fun items : List α =>
      items.length ≤ maxCollectionItems ∧ ∀ a ∈ items, ok a)
    (fun items : List α => (Word.cast 32 items.length : Word 32)) accepts
    fun count _ => (accepts_failIf (c := maxCollectionItems < count.val)
      (e := makeError .resourceExhausted "encoded collection exceeds the item bound")
      (accepts_readN hd count.val)).congr (fun items => by
        rw [← and_assoc, count_eq_iff (by decide), and_assoc]) fun _ _ => rfl
  exact whole.congr (fun items => by simp [Bounded]) fun _ _ => rfl

instance {α : Type} [Codec α] [LawfulCodec α] [ExactCodec α] : ExactCodec (List α) where
  accepts := accepts_listWith accepts

theorem accepts_texts : Accepts decodeTexts encodeTexts fun items =>
    items.length ≤ maxCollectionItems ∧ ∀ t ∈ items, t.length ≤ maxTextBytes :=
  accepts_listWith (accepts_text (by decide))

/-! ## Enumerations -/

/-- A number names at most one member. -/
theorem ofIndex?_eq_some {α : Type} [DecidableEq α] [Enumeration α]
    (nodup : (Enumeration.all (α := α)).Nodup) {n : Nat} {v : α}
    (h : Enumeration.ofIndex? n = some v) : Enumeration.index v = n := by
  obtain ⟨inside, rfl⟩ := List.getElem?_eq_some_iff.mp h
  exact nodup.idxOf_getElem n inside

theorem accepts_memberOf {α : Type} [DecidableEq α] [Enumeration α]
    (nodup : (Enumeration.all (α := α)).Nodup) (unknown : String) (n : Nat) :
    Accepts (memberOf unknown n) (fun _ => []) fun v : α => Enumeration.index v = n := by
  rw [memberOf]
  cases found : (Enumeration.ofIndex? n : Option α) with
  | none =>
    refine (accepts_throw _ _).congr (fun v => ?_) fun _ _ => rfl
    simp only [false_iff]
    rintro rfl
    rw [Enumeration.ofIndex?_index] at found
    cases found
  | some member =>
    refine (accepts_pure member).congr (fun v => ?_) fun _ _ => rfl
    constructor
    · rintro rfl
      exact ofIndex?_eq_some nodup found
    · rintro rfl
      rw [Enumeration.ofIndex?_index] at found
      exact Option.some.inj found

theorem accepts_enum {α : Type} [DecidableEq α] [Enumeration α]
    (nodup : (Enumeration.all (α := α)).Nodup) (small : (Enumeration.all (α := α)).length ≤ 256)
    (unknown : String) :
    Accepts (decodeEnum unknown) (encodeEnum : α → Text) fun _ => True := by
  have number (v : α) (raw : Byte) :
      Enumeration.index v = raw.val ↔ Word.cast 8 (Enumeration.index v) = raw ∧ True := by
    have below := Enumeration.index_lt v
    have same : (Word.cast 8 (Enumeration.index v)).val = Enumeration.index v :=
      Nat.mod_eq_of_lt (by omega)
    rw [and_true]
    constructor
    · intro h
      rw [h, Word.cast_val]
    · rintro rfl
      exact same.symm
  have whole := accepts_bind (q := fun _ => True)
    (fun v : α => (Word.cast 8 (Enumeration.index v) : Byte)) accepts
    fun raw _ => (accepts_memberOf nodup unknown raw.val).congr (fun v => number v raw)
      fun _ _ => rfl
  exact whole.congr (fun v => by simp [Bounded]) fun v _ => List.append_nil _

instance : ExactCodec BindingKind := ⟨accepts_enum (by decide) (by decide) _⟩
instance : ExactCodec GuaranteeClass := ⟨accepts_enum (by decide) (by decide) _⟩
instance : ExactCodec ReservationState := ⟨accepts_enum (by decide) (by decide) _⟩
instance : ExactCodec Applicability := ⟨accepts_enum (by decide) (by decide) _⟩
instance : ExactCodec ApplicabilityReason := ⟨accepts_enum (by decide) (by decide) _⟩
instance : ExactCodec AdmissionOutcome := ⟨accepts_enum (by decide) (by decide) _⟩

/-- Kinds are numbered from 1. -/
theorem kindNumber_eq_iff {v : RecordKind} {raw : Word 16} :
    Word.cast 16 (Enumeration.index v + 1) = raw ↔
      (raw.val < 1 || 14 < raw.val) = false ∧ Enumeration.index v = raw.val - 1 := by
  have below := recordKind_index_lt v
  have number : (Word.cast 16 (Enumeration.index v + 1)).val = Enumeration.index v + 1 :=
    Nat.mod_eq_of_lt (by omega)
  simp only [Bool.or_eq_false_iff, decide_eq_false_iff_not, not_lt]
  constructor
  · rintro rfl
    omega
  · rintro ⟨⟨some, few⟩, same⟩
    apply Fin.ext
    rw [number]
    omega

instance : ExactCodec RecordKind where
  accepts := by
    have whole := accepts_bind (q := fun _ => True)
      (fun v : RecordKind => (Word.cast 16 (Enumeration.index v + 1) : Word 16)) accepts
      fun raw _ => (accepts_failIf (c := raw.val < 1 || 14 < raw.val)
        (e := makeError .corrupt "unknown record kind")
        (accepts_memberOf (by decide) "unknown record kind" (raw.val - 1))).congr
          (fun v => by rw [and_true, kindNumber_eq_iff]) fun _ _ => rfl
    exact whole.congr (fun v => by simp [Bounded]) fun v _ => List.append_nil _

/-! ## Intervals, references and origins -/

instance : ExactCodec Interval where
  accepts := Accepts.congr (accepts_record <|
    accepts_field Interval.start accepts fun _ => accepts_field Interval.stop accepts fun _ =>
    accepts_done (by rintro ⟨⟩; simp)) (by simp [Bounded]) fun _ _ => rfl

instance : ExactCodec ResourceRef where
  accepts := Accepts.congr (accepts_record <|
    accepts_field ResourceRef.resource accepts fun _ =>
    accepts_field ResourceRef.generation accepts fun _ =>
    accepts_done (by rintro ⟨⟩; simp)) (by simp [Bounded]) fun _ _ => rfl

instance : ExactCodec FailureDomainRef where
  accepts := Accepts.congr (accepts_record <|
    accepts_field FailureDomainRef.domain accepts fun _ =>
    accepts_field FailureDomainRef.generation accepts fun _ =>
    accepts_done (by rintro ⟨⟩; simp)) (by simp [Bounded]) fun _ _ => rfl

instance : ExactCodec AuthorityVector where
  accepts := Accepts.congr (accepts_record <|
    accepts_field AuthorityVector.fabricEpoch accepts fun _ =>
    accepts_field AuthorityVector.reservationGeneration accepts fun _ =>
    accepts_field AuthorityVector.claimant accepts fun _ =>
    accepts_field AuthorityVector.claimantGeneration accepts fun _ =>
    accepts_field AuthorityVector.capacitySnapshot accepts fun _ =>
    accepts_field AuthorityVector.capacityGeneration accepts fun _ =>
    accepts_field AuthorityVector.policy accepts fun _ =>
    accepts_field AuthorityVector.policyGeneration accepts fun _ =>
    accepts_field AuthorityVector.pathGeneration accepts fun _ =>
    accepts_field AuthorityVector.resources accepts fun _ =>
    accepts_field AuthorityVector.failureDomains accepts fun _ =>
    accepts_done (by rintro ⟨⟩; simp [and_assoc])) (by simp [Bounded]) fun _ _ => rfl

instance : ExactCodec Provenance where
  accepts := Accepts.congr (accepts_record <|
    accepts_field Provenance.actor accepts fun _ =>
    accepts_field Provenance.publisher accepts fun _ =>
    accepts_field Provenance.publisherBoot accepts fun _ =>
    accepts_field Provenance.session accepts fun _ =>
    accepts_field Provenance.attempt accepts fun _ =>
    accepts_field Provenance.fabricEpoch accepts fun _ =>
    accepts_field Provenance.coordinatorBoot accepts fun _ =>
    accepts_field Provenance.recordedAt accepts fun _ =>
    accepts_field Provenance.sequence accepts fun _ =>
    accepts_field Provenance.reason (accepts_text (by decide)) fun _ =>
    accepts_done (by rintro ⟨⟩; simp [and_assoc])) (by simp [Bounded]) fun _ _ => rfl

/-! ## Capacity and paths -/

instance : ExactCodec MaintenanceWindow where
  accepts := Accepts.congr (accepts_record <|
    accepts_field MaintenanceWindow.interval accepts fun _ =>
    accepts_field MaintenanceWindow.reason (accepts_text (by decide)) fun _ =>
    accepts_done (by rintro ⟨⟩; simp)) (by simp [Bounded]) fun _ _ => rfl

instance : ExactCodec ResourceCapacity where
  accepts := Accepts.congr (accepts_record <|
    accepts_field ResourceCapacity.resource accepts fun _ =>
    accepts_field ResourceCapacity.generation accepts fun _ =>
    accepts_field ResourceCapacity.reservableCapacity accepts fun _ =>
    accepts_field ResourceCapacity.protectedHeadroom accepts fun _ =>
    accepts_field ResourceCapacity.failureDomain accepts fun _ =>
    accepts_field ResourceCapacity.failureDomainGeneration accepts fun _ =>
    accepts_field ResourceCapacity.maintenance accepts fun _ =>
    accepts_done (by rintro ⟨⟩; simp [and_assoc])) (by simp [Bounded]) fun _ _ => rfl

instance : ExactCodec CapacitySnapshot where
  accepts := Accepts.congr (accepts_record <|
    accepts_field CapacitySnapshot.id accepts fun _ =>
    accepts_field CapacitySnapshot.generation accepts fun _ =>
    accepts_field CapacitySnapshot.fabricEpoch accepts fun _ =>
    accepts_field CapacitySnapshot.ingestedAt accepts fun _ =>
    accepts_field CapacitySnapshot.complete accepts fun _ =>
    accepts_field CapacitySnapshot.resources accepts fun _ =>
    accepts_done (by rintro ⟨⟩; simp [and_assoc])) (by simp [Bounded]) fun _ _ => rfl

instance : ExactCodec PathAuthority where
  accepts := Accepts.congr (accepts_record <|
    accepts_field PathAuthority.path accepts fun _ =>
    accepts_field PathAuthority.generation accepts fun _ =>
    accepts_field PathAuthority.components accepts fun _ =>
    accepts_field PathAuthority.issuedAt accepts fun _ =>
    accepts_field PathAuthority.retired accepts fun _ =>
    accepts_done (by rintro ⟨⟩; simp [and_assoc])) (by simp [Bounded]) fun _ _ => rfl

instance : ExactCodec PathAuthoritySnapshot where
  accepts := Accepts.congr (accepts_record <|
    accepts_field PathAuthoritySnapshot.id accepts fun _ =>
    accepts_field PathAuthoritySnapshot.generation accepts fun _ =>
    accepts_field PathAuthoritySnapshot.fabricEpoch accepts fun _ =>
    accepts_field PathAuthoritySnapshot.ingestedAt accepts fun _ =>
    accepts_field PathAuthoritySnapshot.complete accepts fun _ =>
    accepts_field PathAuthoritySnapshot.paths accepts fun _ =>
    accepts_done (by rintro ⟨⟩; simp [and_assoc])) (by simp [Bounded]) fun _ _ => rfl

/-! ## Policies -/

instance : ExactCodec PolicyRecord where
  accepts := Accepts.congr (accepts_record <|
    accepts_field PolicyRecord.name accepts fun _ =>
    accepts_field PolicyRecord.generation accepts fun _ =>
    accepts_field PolicyRecord.ingestedAt accepts fun _ =>
    accepts_field PolicyRecord.allowRecallGuaranteed accepts fun _ =>
    accepts_field PolicyRecord.allowRecallProtected accepts fun _ =>
    accepts_field PolicyRecord.allowPreemptionOnCommit accepts fun _ =>
    accepts_field PolicyRecord.maxPreemptionVictims accepts fun _ =>
    accepts_check (fun r : PolicyRecord => r.maxPreemptionVictims.val ≤ 1024)
      (fun r h => by simp [← h.2]) <|
    accepts_field PolicyRecord.defaultRecallGrace accepts fun _ =>
    accepts_field PolicyRecord.allowOvercommit accepts fun _ =>
    accepts_field PolicyRecord.overcommitAllowance accepts fun _ =>
    accepts_field PolicyRecord.minimumReservationAmount accepts fun _ =>
    accepts_field PolicyRecord.allowPastStart accepts fun _ =>
    accepts_field PolicyRecord.maxFutureHorizon accepts fun _ =>
    accepts_field PolicyRecord.maxExtraHeadroom accepts fun _ =>
    accepts_field PolicyRecord.autoRevalidateOnGenerationChange accepts fun _ =>
    accepts_field PolicyRecord.policyHeadroom accepts fun _ =>
    accepts_field PolicyRecord.maxConflictSet accepts fun _ =>
    accepts_check (fun r : PolicyRecord => r.maxConflictSet.val ≠ 0 ∧ r.maxConflictSet.val ≤ 4096)
      (fun r h => by simp [← h.2]) <|
    accepts_field PolicyRecord.maxExplanationBytes accepts fun _ =>
    accepts_check (fun r : PolicyRecord =>
        128 ≤ r.maxExplanationBytes.val ∧ r.maxExplanationBytes.val ≤ 65536)
      (fun r h => by simp [← h.2]) <|
    accepts_field PolicyRecord.maxSeriesMembers accepts fun _ =>
    accepts_check (fun r : PolicyRecord =>
        r.maxSeriesMembers.val ≠ 0 ∧ r.maxSeriesMembers.val ≤ 4096)
      (fun r h => by simp [← h.2]) <|
    accepts_field PolicyRecord.maxHoldTtl accepts fun _ =>
    accepts_field PolicyRecord.maxHoldsPerSession accepts fun _ =>
    accepts_check (fun r : PolicyRecord => r.maxHoldsPerSession.val ≤ 4096)
      (fun r h => by simp [← h.2]) <|
    accepts_field PolicyRecord.maxHoldBandwidth accepts fun _ =>
    accepts_done (by rintro ⟨⟩; simp [and_assoc])) (by simp [Bounded]) fun _ _ => rfl

/-! ## Reservations -/

instance : ExactCodec RecurrenceSpec where
  accepts := Accepts.congr (accepts_record <|
    accepts_field RecurrenceSpec.enabled accepts fun _ =>
    accepts_field RecurrenceSpec.period accepts fun _ =>
    accepts_field RecurrenceSpec.count accepts fun _ =>
    accepts_check (fun r : RecurrenceSpec => r.count.val ≤ 4096)
      (fun r h => by simp [← h.2]) <|
    accepts_done (by rintro ⟨⟩; simp [and_assoc])) (by simp [Bounded]) fun _ _ => rfl

instance : ExactCodec ReservationTerms where
  accepts := Accepts.congr (accepts_record <|
    accepts_field ReservationTerms.claimant accepts fun _ =>
    accepts_field ReservationTerms.claimantGeneration accepts fun _ =>
    accepts_field ReservationTerms.bindingKind accepts fun _ =>
    accepts_field ReservationTerms.resources accepts fun _ =>
    accepts_field ReservationTerms.path accepts fun _ =>
    accepts_field ReservationTerms.requiredPathGeneration accepts fun _ =>
    accepts_field ReservationTerms.interval accepts fun _ =>
    accepts_field ReservationTerms.amount accepts fun _ =>
    accepts_field ReservationTerms.minimumAmount accepts fun _ =>
    accepts_field ReservationTerms.maximumAmount accepts fun _ =>
    accepts_field ReservationTerms.guarantee accepts fun _ =>
    accepts_field ReservationTerms.priority accepts fun _ =>
    accepts_check (fun r : ReservationTerms => r.priority.val ≤ maxPriority)
      (fun r h => by simp [← h.2]) <|
    accepts_field ReservationTerms.preemptible accepts fun _ =>
    accepts_field ReservationTerms.recallPermitted accepts fun _ =>
    accepts_field ReservationTerms.grace accepts fun _ =>
    accepts_field ReservationTerms.headroomRequirement accepts fun _ =>
    accepts_field ReservationTerms.policy accepts fun _ =>
    accepts_field ReservationTerms.policyLabels accepts_texts fun _ =>
    accepts_check (fun r : ReservationTerms => r.policyLabels.length ≤ maxPolicyLabels)
      (fun r h => by simp [← h.2]) <|
    accepts_check (fun r : ReservationTerms =>
        ∀ label ∈ r.policyLabels, label.length ≤ maxLabelBytes)
      (fun r h => by simp [← h.2]) <|
    accepts_field ReservationTerms.recurrence accepts fun _ =>
    accepts_done (by rintro ⟨⟩; simp [and_assoc])) (by
      simp only [Bounded, maxCollectionItems, maxPriority, maxPolicyLabels, maxLabelBytes,
        maxTextBytes, true_and, and_true, implies_true]
      grind) fun _ _ => rfl

instance : ExactCodec ReservationRecord where
  accepts := Accepts.congr (accepts_record <|
    accepts_field ReservationRecord.id accepts fun _ =>
    accepts_field ReservationRecord.generation accepts fun _ =>
    accepts_field ReservationRecord.seriesMember accepts fun _ =>
    accepts_field ReservationRecord.series accepts fun _ =>
    accepts_field ReservationRecord.seriesIndex accepts fun _ =>
    accepts_field ReservationRecord.terms accepts fun _ =>
    accepts_field ReservationRecord.authority accepts fun _ =>
    accepts_field ReservationRecord.state accepts fun _ =>
    accepts_field ReservationRecord.applicability accepts fun _ =>
    accepts_field ReservationRecord.applicabilityReason accepts fun _ =>
    accepts_field ReservationRecord.declaredAt accepts fun _ =>
    accepts_field ReservationRecord.committedAt accepts fun _ =>
    accepts_field ReservationRecord.activatedAt accepts fun _ =>
    accepts_field ReservationRecord.stateChangedAt accepts fun _ =>
    accepts_field ReservationRecord.recallEffectiveAt accepts fun _ =>
    accepts_field ReservationRecord.recallGrace accepts fun _ =>
    accepts_field ReservationRecord.terminatedAt accepts fun _ =>
    accepts_field ReservationRecord.predecessor accepts fun _ =>
    accepts_field ReservationRecord.predecessorGeneration accepts fun _ =>
    accepts_field ReservationRecord.stateReason (accepts_text (by decide)) fun _ =>
    accepts_field ReservationRecord.lastProvenance accepts fun _ =>
    accepts_field ReservationRecord.sequence accepts fun _ =>
    accepts_done (by rintro ⟨⟩; simp [and_assoc])) (by simp [Bounded]) fun _ _ => rfl

instance : ExactCodec SupersessionEdge where
  accepts := Accepts.congr (accepts_record <|
    accepts_field SupersessionEdge.predecessor accepts fun _ =>
    accepts_field SupersessionEdge.predecessorGeneration accepts fun _ =>
    accepts_field SupersessionEdge.successor accepts fun _ =>
    accepts_field SupersessionEdge.successorGeneration accepts fun _ =>
    accepts_field SupersessionEdge.recordedAt accepts fun _ =>
    accepts_field SupersessionEdge.sequence accepts fun _ =>
    accepts_field SupersessionEdge.reason (accepts_text (by decide)) fun _ =>
    accepts_done (by rintro ⟨⟩; simp [and_assoc])) (by simp [Bounded]) fun _ _ => rfl

instance : ExactCodec ReservationSeries where
  accepts := Accepts.congr (accepts_record <|
    accepts_field ReservationSeries.id accepts fun _ =>
    accepts_field ReservationSeries.generation accepts fun _ =>
    accepts_field ReservationSeries.claimant accepts fun _ =>
    accepts_field ReservationSeries.claimantGeneration accepts fun _ =>
    accepts_field ReservationSeries.spec accepts fun _ =>
    accepts_field ReservationSeries.firstInterval accepts fun _ =>
    accepts_field ReservationSeries.amount accepts fun _ =>
    accepts_field ReservationSeries.state accepts fun _ =>
    accepts_field ReservationSeries.createdAt accepts fun _ =>
    accepts_field ReservationSeries.stateChangedAt accepts fun _ =>
    accepts_field ReservationSeries.predecessorSeriesGeneration accepts fun _ =>
    accepts_field ReservationSeries.predecessorGeneration accepts fun _ =>
    accepts_field ReservationSeries.members accepts fun _ =>
    accepts_field ReservationSeries.lastProvenance accepts fun _ =>
    accepts_field ReservationSeries.sequence accepts fun _ =>
    accepts_done (by rintro ⟨⟩; simp [and_assoc])) (by simp [Bounded]) fun _ _ => rfl

/-! ## Mutations -/

instance : ExactCodec AttemptMutation where
  accepts := Accepts.congr (accepts_record <|
    accepts_field AttemptMutation.attempt accepts fun _ =>
    accepts_field AttemptMutation.fingerprint accepts fun _ =>
    accepts_field AttemptMutation.outcome accepts fun _ =>
    accepts_field AttemptMutation.reservation accepts fun _ =>
    accepts_field AttemptMutation.generation accepts fun _ =>
    accepts_field AttemptMutation.resultSequence accepts fun _ =>
    accepts_field AttemptMutation.claimant accepts fun _ =>
    accepts_field AttemptMutation.at' accepts fun _ =>
    accepts_done (by rintro ⟨⟩; simp [and_assoc])) (by simp [Bounded]) fun _ _ => rfl

instance : ExactCodec StateMutation where
  accepts := Accepts.congr (accepts_record <|
    accepts_field StateMutation.id accepts fun _ =>
    accepts_field StateMutation.generation accepts fun _ =>
    accepts_field StateMutation.fromState accepts fun _ =>
    accepts_field StateMutation.toState accepts fun _ =>
    accepts_field StateMutation.at' accepts fun _ =>
    accepts_field StateMutation.reason (accepts_text (by decide)) fun _ =>
    accepts_field StateMutation.provenance accepts fun _ =>
    accepts_field StateMutation.recallEffectiveAt accepts fun _ =>
    accepts_field StateMutation.attempt accepts fun _ =>
    accepts_done (by rintro ⟨⟩; simp [and_assoc])) (by simp [Bounded]) fun _ _ => rfl

instance : ExactCodec ReservationMutation where
  accepts := Accepts.congr (accepts_record <|
    accepts_field ReservationMutation.record accepts fun _ =>
    accepts_field ReservationMutation.series accepts fun _ =>
    accepts_field ReservationMutation.members accepts fun _ =>
    accepts_field ReservationMutation.edge accepts fun _ =>
    accepts_field ReservationMutation.supersedeRecord accepts fun _ =>
    accepts_field ReservationMutation.companions accepts fun _ =>
    accepts_field ReservationMutation.attempt accepts fun _ =>
    accepts_done (by rintro ⟨⟩; simp [and_assoc])) (by simp [Bounded]) fun _ _ => rfl

instance : ExactCodec ApplicabilityMutation where
  accepts := Accepts.congr (accepts_record <|
    accepts_field ApplicabilityMutation.id accepts fun _ =>
    accepts_field ApplicabilityMutation.generation accepts fun _ =>
    accepts_field ApplicabilityMutation.applicability accepts fun _ =>
    accepts_field ApplicabilityMutation.reason accepts fun _ =>
    accepts_field ApplicabilityMutation.at' accepts fun _ =>
    accepts_done (by rintro ⟨⟩; simp [and_assoc])) (by simp [Bounded]) fun _ _ => rfl

instance : ExactCodec EpochMutation where
  accepts := Accepts.congr (accepts_record <|
    accepts_field EpochMutation.epoch accepts fun _ =>
    accepts_field EpochMutation.coordinatorBoot accepts fun _ =>
    accepts_field EpochMutation.at' accepts fun _ =>
    accepts_done (by rintro ⟨⟩; simp [and_assoc])) (by simp [Bounded]) fun _ _ => rfl

instance : ExactCodec FenceMutation where
  accepts := Accepts.congr (accepts_record <|
    accepts_field FenceMutation.claimant accepts fun _ =>
    accepts_field FenceMutation.claimantGeneration accepts fun _ =>
    accepts_field FenceMutation.boot accepts fun _ =>
    accepts_field FenceMutation.session accepts fun _ =>
    accepts_field FenceMutation.at' accepts fun _ =>
    accepts_field FenceMutation.reason (accepts_text (by decide)) fun _ =>
    accepts_field FenceMutation.claimantWide accepts fun _ =>
    accepts_done (by rintro ⟨⟩; simp [and_assoc])) (by simp [Bounded]) fun _ _ => rfl

instance : ExactCodec ClaimantMutation where
  accepts := Accepts.congr (accepts_record <|
    accepts_field ClaimantMutation.claimant accepts fun _ =>
    accepts_field ClaimantMutation.generation accepts fun _ =>
    accepts_field ClaimantMutation.at' accepts fun _ =>
    accepts_done (by rintro ⟨⟩; simp [and_assoc])) (by simp [Bounded]) fun _ _ => rfl

instance : ExactCodec OvercommitMutation where
  accepts := Accepts.congr (accepts_record <|
    accepts_field OvercommitMutation.resource accepts fun _ =>
    accepts_field OvercommitMutation.generation accepts fun _ =>
    accepts_field OvercommitMutation.committedPeak accepts fun _ =>
    accepts_field OvercommitMutation.ceiling accepts fun _ =>
    accepts_field OvercommitMutation.window accepts fun _ =>
    accepts_field OvercommitMutation.at' accepts fun _ =>
    accepts_field OvercommitMutation.resolved accepts fun _ =>
    accepts_done (by rintro ⟨⟩; simp [and_assoc])) (by simp [Bounded]) fun _ _ => rfl

instance : ExactCodec RetireMutation where
  accepts := Accepts.congr (accepts_record <|
    accepts_field RetireMutation.ids accepts fun _ =>
    accepts_field RetireMutation.generations accepts fun _ =>
    accepts_check (fun r : RetireMutation => r.ids.length = r.generations.length)
      (fun r h => by simp [← h.2, ← h.1.2]) <|
    accepts_field RetireMutation.at' accepts fun _ =>
    accepts_done (by rintro ⟨⟩; simp [and_assoc])) (by simp [Bounded]; grind) fun _ _ => rfl

instance : ExactCodec CapacityMutation where
  accepts := Accepts.congr (accepts_record <|
    accepts_field CapacityMutation.snapshot accepts fun _ =>
    accepts_field CapacityMutation.withdrawals accepts fun _ =>
    accepts_done (by rintro ⟨⟩; simp)) (by simp [Bounded]) fun _ _ => rfl

/-! ## The journal envelope -/

theorem accepts_body (kind : RecordKind) :
    Accepts (decodeBody kind) encodeBody fun v => v.kind = kind ∧ BoundedBody v := by
  cases kind <;>
    exact accepts_map accepts
      (fun v => by cases v <;> simp [DurableRecord.kind, BoundedBody]) fun _ _ => rfl

instance : ExactCodec DurableRecord where
  accepts := by
    have whole := accepts_bind DurableRecord.kind accepts fun kind _ => accepts_body kind
    exact whole.congr (fun v => by simp [Bounded]) fun v _ => by simp [encode]

theorem accepts_envelope (kind : RecordKind) :
    Accepts (decodeEnvelope kind) encodeRecord fun v => v.kind = kind ∧ Bounded v := by
  have record := accepts_bind (fun v => v) (accepts (α := DurableRecord)) fun v _ =>
    (accepts_failIf (c := v.kind != kind)
      (e := makeError .corrupt "durable record kind does not match its container")
      (accepts_pure v)).congr (q := fun w => w = v ∧ w.kind = kind)
        (fun w => by simp only [bne_eq_false_iff_eq]; grind) fun _ _ => rfl
  have version := accepts_bind (q := fun v => Bounded v ∧ v.kind = kind)
    (fun _ => durableFormatVersion) (accepts (α := Word 16))
    fun version _ => (accepts_failIf (c := version != durableFormatVersion)
      (e := makeError .unsupported "durable record format version is not supported") record).congr
        (fun w => by rw [bne_eq_false_iff_eq, eq_comm]) fun _ _ => rfl
  refine version.congr (fun v => by simp [Bounded, and_comm]) fun v _ => ?_
  simp [encodeRecord]

/-- A whole payload. -/
theorem decodeAll_eq_ok {α : Type} {d : Reader Error α} {enc : α → Text} {ok : α → Prop}
    (h : Accepts d enc ok) {trailing : String} {payload : Text} {a : α} :
    decodeAll d trailing payload = .ok a ↔ ok a ∧ payload = enc a := by
  have whole := h payload a []
  rw [List.append_nil] at whole
  rw [← whole, decodeAll]
  cases d.run payload with
  | error e => simp
  | ok found =>
    obtain ⟨b, rest⟩ := found
    by_cases whole : rest = [] <;> simp [whole]

/-- **One encoding for each record.** A byte string is accepted as a record of some kind exactly if
the record is of that kind, within the bounds of the codec, and the string is its encoding. -/
theorem decodeRecord_exact (payload : Text) (kind : RecordKind) (v : DurableRecord) :
    decodeRecord payload kind = .ok v ↔ (v.kind = kind ∧ Bounded v) ∧ payload = encodeRecord v :=
  decodeAll_eq_ok (accepts_envelope kind)

/-! ## Snapshots -/

instance : ExactCodec CapacityEntry where
  accepts := Accepts.congr (accepts_record <|
    accepts_field CapacityEntry.capacity accepts fun _ =>
    accepts_field CapacityEntry.snapshot accepts fun _ =>
    accepts_field CapacityEntry.ingestedAt accepts fun _ =>
    accepts_field CapacityEntry.withdrawn accepts fun _ =>
    accepts_field CapacityEntry.withdrawnAt accepts fun _ =>
    accepts_field CapacityEntry.priorGenerations accepts fun _ =>
    accepts_done (by rintro ⟨⟩; simp [and_assoc])) (by simp [Bounded]) fun _ _ => rfl

instance : ExactCodec PathEntry where
  accepts := Accepts.congr (accepts_record <|
    accepts_field PathEntry.path accepts fun _ =>
    accepts_field PathEntry.snapshot accepts fun _ =>
    accepts_field PathEntry.ingestedAt accepts fun _ =>
    accepts_field PathEntry.retired accepts fun _ =>
    accepts_field PathEntry.priorGenerations accepts fun _ =>
    accepts_done (by rintro ⟨⟩; simp [and_assoc])) (by simp [Bounded]) fun _ _ => rfl

instance : ExactCodec PolicyEntry where
  accepts := Accepts.congr (accepts_record <|
    accepts_field PolicyEntry.record accepts fun _ =>
    accepts_field PolicyEntry.ingestedAt accepts fun _ =>
    accepts_field PolicyEntry.priorGenerations accepts fun _ =>
    accepts_done (by rintro ⟨⟩; simp [and_assoc, and_comm])) (by simp [Bounded]) fun _ _ => rfl

instance : ExactCodec SnapshotState where
  accepts := Accepts.congr (accepts_record <|
    accepts_field SnapshotState.epoch accepts fun _ =>
    accepts_field SnapshotState.coordinatorBoot accepts fun _ =>
    accepts_field SnapshotState.sequence accepts fun _ =>
    accepts_field SnapshotState.capacity accepts fun _ =>
    accepts_field SnapshotState.paths accepts fun _ =>
    accepts_field SnapshotState.policies accepts fun _ =>
    accepts_field SnapshotState.reservations accepts fun _ =>
    accepts_field SnapshotState.series accepts fun _ =>
    accepts_field SnapshotState.edges accepts fun _ =>
    accepts_field SnapshotState.attempts accepts fun _ =>
    accepts_field SnapshotState.fences accepts fun _ =>
    accepts_field SnapshotState.claimants accepts fun _ =>
    accepts_field SnapshotState.overcommits accepts fun _ =>
    accepts_field SnapshotState.retired accepts fun _ =>
    accepts_done (by rintro ⟨⟩; simp [and_assoc])) (by simp [Bounded]) fun _ _ => rfl

end Brf
