import Brf.Codec

/-!
# What the durable decoders accept

For every durable type, the exact condition `Bounded` under which its decoder reads back what its
encoder wrote. A field without bounds of its own contributes nothing, so each condition names the
bounds the decoder checks: lengths of texts and lists, the ranges of a policy, of a priority and of
a recurrence.

* A law is the composition of the laws of the fields, in the order of the encoder: `reads_field`,
  `reads_textField`, `reads_check` for a check between two fields, `reads_done` at the end.

Results: `LawfulCodec` of every durable type; for the journal envelope `decodeRecord_encodeRecord`
(a record is read back exactly when it is within the bounds) and `decodeRecord_sound`; for snapshots
`decodeSnapshot_encode` and `decodeSnapshot_sound`.
-/

namespace Brf

open Brf.Lib

/-! ## Enumerations -/

instance : LawfulCodec BindingKind :=
  ⟨fun _ => True, fun v => reads_enum v _ (by decide), fun v => by simp [encode, encodeEnum]⟩

instance : LawfulCodec GuaranteeClass :=
  ⟨fun _ => True, fun v => reads_enum v _ (by decide), fun v => by simp [encode, encodeEnum]⟩

instance : LawfulCodec ReservationState :=
  ⟨fun _ => True, fun v => reads_enum v _ (by decide), fun v => by simp [encode, encodeEnum]⟩

instance : LawfulCodec Applicability :=
  ⟨fun _ => True, fun v => reads_enum v _ (by decide), fun v => by simp [encode, encodeEnum]⟩

instance : LawfulCodec ApplicabilityReason :=
  ⟨fun _ => True, fun v => reads_enum v _ (by decide), fun v => by simp [encode, encodeEnum]⟩

instance : LawfulCodec AdmissionOutcome :=
  ⟨fun _ => True, fun v => reads_enum v _ (by decide), fun v => by simp [encode, encodeEnum]⟩

theorem recordKind_index_lt (v : RecordKind) : Enumeration.index v < 14 := Enumeration.index_lt v

instance : LawfulCodec RecordKind where
  Bounded _ := True
  reads v := by
    have small := recordKind_index_lt v
    have raw : (Word.cast 16 (Enumeration.index v + 1)).val = Enumeration.index v + 1 := by
      rw [Word.val_cast, Nat.mod_eq_of_lt]
      omega
    have member : Reads (memberOf "unknown record kind"
        ((Word.cast 16 (Enumeration.index v + 1)).val - 1)) [] v True := by
      rw [raw, Nat.add_sub_cancel]
      exact reads_memberOf v _
    have h := reads_bind (reads (Word.cast 16 (Enumeration.index v + 1)))
      (f := fun raw : Word 16 => failIf (raw.val < 1 || 14 < raw.val)
        (makeError .corrupt "unknown record kind") >>= fun _ =>
          memberOf "unknown record kind" (raw.val - 1)) (reads_check member)
    rw [List.append_nil] at h
    refine h.congr ?_
    simp only [Bounded, raw, true_and, and_true, iff_true, Bool.or_eq_false_iff,
      decide_eq_false_iff_not]
    omega
  encode_pos v := encode_pos (Word.cast 16 (Enumeration.index v + 1))

/-- An encoding that starts with an encoded field is not empty. -/
theorem flatten_pos {α : Type} [Codec α] [LawfulCodec α] (a : α) (rest : List Text) :
    0 < (List.flatten (encode a :: rest)).length := by
  have h := encode_pos a
  simp only [List.flatten_cons, List.length_append]
  omega

/-- The field in front of the others. -/
theorem reads_field {α β : Type} [Codec α] [LawfulCodec α] (a : α) {f : α → Reader Error β}
    {rest : List Text} {b : β} {q : Prop} (hf : Reads (f a) (List.flatten rest) b q) :
    Reads (decode >>= f) (List.flatten (encode a :: rest)) b (Bounded a ∧ q) := by
  rw [List.flatten_cons]
  exact reads_bind (reads a) hf

/-- A bounded text in front of the other fields. -/
theorem reads_textField {β : Type} (text : Text) (maxSize : Nat) {f : Text → Reader Error β}
    {rest : List Text} {b : β} {q : Prop} (hf : Reads (f text) (List.flatten rest) b q) :
    Reads (decodeText maxSize >>= f) (List.flatten (encodeText text :: rest)) b
      (text.length ≤ maxSize ∧ q) := by
  rw [List.flatten_cons]
  exact reads_bind (reads_text text maxSize) hf

/-- The record is rebuilt from its fields. -/
theorem reads_done {α : Type} (a : α) : Reads (pure a : Reader Error α) (List.flatten []) a True :=
  reads_pure a

/-! ## Intervals, references and origins -/

instance : LawfulCodec Interval where
  Bounded _ := True
  reads v := Reads.congr (reads_field v.start <| reads_field v.stop <| reads_done v)
    (by simp [Bounded])
  encode_pos v := flatten_pos v.start _

instance : LawfulCodec ResourceRef where
  Bounded _ := True
  reads v := Reads.congr (reads_field v.resource <| reads_field v.generation <|
    reads_done v)
    (by simp [Bounded])
  encode_pos v := flatten_pos v.resource _

instance : LawfulCodec FailureDomainRef where
  Bounded _ := True
  reads v := Reads.congr (reads_field v.domain <| reads_field v.generation <|
    reads_done v)
    (by simp [Bounded])
  encode_pos v := flatten_pos v.domain _

instance : LawfulCodec AuthorityVector where
  Bounded v := v.resources.length ≤ maxCollectionItems ∧
    v.failureDomains.length ≤ maxCollectionItems
  reads v := Reads.congr (reads_field v.fabricEpoch <| reads_field v.reservationGeneration <|
    reads_field v.claimant <| reads_field v.claimantGeneration <|
    reads_field v.capacitySnapshot <| reads_field v.capacityGeneration <|
    reads_field v.policy <| reads_field v.policyGeneration <|
    reads_field v.pathGeneration <| reads_field v.resources <|
    reads_field v.failureDomains <| reads_done v)
    (by simp [Bounded])
  encode_pos v := flatten_pos v.fabricEpoch _

instance : LawfulCodec Provenance where
  Bounded v := v.reason.length ≤ maxProvenanceReasonBytes
  reads v := Reads.congr (reads_field v.actor <| reads_field v.publisher <|
    reads_field v.publisherBoot <| reads_field v.session <|
    reads_field v.attempt <| reads_field v.fabricEpoch <|
    reads_field v.coordinatorBoot <| reads_field v.recordedAt <|
    reads_field v.sequence <| reads_textField v.reason _ <|
    reads_done v)
    (by simp [Bounded])
  encode_pos v := flatten_pos v.actor _

/-! ## Capacity and paths -/

instance : LawfulCodec MaintenanceWindow where
  Bounded v := v.reason.length ≤ 256
  reads v := Reads.congr (reads_field v.interval <| reads_textField v.reason _ <|
    reads_done v)
    (by simp [Bounded])
  encode_pos v := flatten_pos v.interval _

instance : LawfulCodec ResourceCapacity where
  Bounded v := Bounded v.maintenance
  reads v := Reads.congr (reads_field v.resource <| reads_field v.generation <|
    reads_field v.reservableCapacity <| reads_field v.protectedHeadroom <|
    reads_field v.failureDomain <| reads_field v.failureDomainGeneration <|
    reads_field v.maintenance <| reads_done v)
    (by simp [Bounded])
  encode_pos v := flatten_pos v.resource _

instance : LawfulCodec CapacitySnapshot where
  Bounded v := Bounded v.resources
  reads v := Reads.congr (reads_field v.id <| reads_field v.generation <|
    reads_field v.fabricEpoch <| reads_field v.ingestedAt <|
    reads_field v.complete <| reads_field v.resources <|
    reads_done v)
    (by simp [Bounded])
  encode_pos v := flatten_pos v.id _

instance : LawfulCodec PathAuthority where
  Bounded v := v.components.length ≤ maxCollectionItems
  reads v := Reads.congr (reads_field v.path <| reads_field v.generation <|
    reads_field v.components <| reads_field v.issuedAt <|
    reads_field v.retired <| reads_done v)
    (by simp [Bounded])
  encode_pos v := flatten_pos v.path _

instance : LawfulCodec PathAuthoritySnapshot where
  Bounded v := Bounded v.paths
  reads v := Reads.congr (reads_field v.id <| reads_field v.generation <|
    reads_field v.fabricEpoch <| reads_field v.ingestedAt <|
    reads_field v.complete <| reads_field v.paths <|
    reads_done v)
    (by simp [Bounded])
  encode_pos v := flatten_pos v.id _

/-! ## Policies -/

instance : LawfulCodec PolicyRecord where
  Bounded v := v.maxPreemptionVictims.val ≤ 1024 ∧
    (v.maxConflictSet.val ≠ 0 ∧ v.maxConflictSet.val ≤ 4096) ∧
    (128 ≤ v.maxExplanationBytes.val ∧ v.maxExplanationBytes.val ≤ 65536) ∧
    (v.maxSeriesMembers.val ≠ 0 ∧ v.maxSeriesMembers.val ≤ 4096) ∧
    v.maxHoldsPerSession.val ≤ 4096
  reads v := Reads.congr (reads_field v.name <| reads_field v.generation <|
    reads_field v.ingestedAt <| reads_field v.allowRecallGuaranteed <|
    reads_field v.allowRecallProtected <| reads_field v.allowPreemptionOnCommit <|
    reads_field v.maxPreemptionVictims <| reads_check <|
    reads_field v.defaultRecallGrace <| reads_field v.allowOvercommit <|
    reads_field v.overcommitAllowance <| reads_field v.minimumReservationAmount <|
    reads_field v.allowPastStart <| reads_field v.maxFutureHorizon <|
    reads_field v.maxExtraHeadroom <|
    reads_field v.autoRevalidateOnGenerationChange <|
    reads_field v.policyHeadroom <| reads_field v.maxConflictSet <| reads_check <|
    reads_field v.maxExplanationBytes <| reads_check <|
    reads_field v.maxSeriesMembers <| reads_check <| reads_field v.maxHoldTtl <|
    reads_field v.maxHoldsPerSession <| reads_check <|
    reads_field v.maxHoldBandwidth <| reads_done v)
    (by simp [Bounded])
  encode_pos v := flatten_pos v.name _

/-! ## Reservations -/

instance : LawfulCodec RecurrenceSpec where
  Bounded v := v.count.val ≤ 4096
  reads v := Reads.congr (reads_field v.enabled <| reads_field v.period <|
    reads_field v.count <| reads_check <| reads_done v)
    (by simp [Bounded])
  encode_pos v := flatten_pos v.enabled _

instance : LawfulCodec ReservationTerms where
  Bounded v := v.resources.length ≤ maxCollectionItems ∧ v.priority.val ≤ maxPriority ∧
    v.policyLabels.length ≤ maxPolicyLabels ∧
    (∀ label ∈ v.policyLabels, label.length ≤ maxLabelBytes) ∧ v.recurrence.count.val ≤ 4096
  reads v := Reads.congr (reads_field v.claimant <| reads_field v.claimantGeneration <|
    reads_field v.bindingKind <| reads_field v.resources <|
    reads_field v.path <| reads_field v.requiredPathGeneration <|
    reads_field v.interval <| reads_field v.amount <|
    reads_field v.minimumAmount <| reads_field v.maximumAmount <|
    reads_field v.guarantee <| reads_field v.priority <| reads_check <|
    reads_field v.preemptible <| reads_field v.recallPermitted <|
    reads_field v.grace <| reads_field v.headroomRequirement <|
    reads_field v.policy <| reads_bind (reads_texts v.policyLabels) <| reads_check <|
    reads_check <| reads_field v.recurrence <| reads_done v)
    (by
      simp only [Bounded, maxCollectionItems, maxPriority, maxPolicyLabels, maxLabelBytes,
        maxTextBytes, List.any_eq_false, true_and, and_true, implies_true]
      grind)
  encode_pos v := flatten_pos v.claimant _

instance : LawfulCodec ReservationRecord where
  Bounded v := Bounded v.terms ∧ Bounded v.authority ∧
    v.stateReason.length ≤ maxProvenanceReasonBytes ∧ Bounded v.lastProvenance
  reads v := Reads.congr (reads_field v.id <| reads_field v.generation <|
    reads_field v.seriesMember <| reads_field v.series <|
    reads_field v.seriesIndex <| reads_field v.terms <|
    reads_field v.authority <| reads_field v.state <|
    reads_field v.applicability <| reads_field v.applicabilityReason <|
    reads_field v.declaredAt <| reads_field v.committedAt <|
    reads_field v.activatedAt <| reads_field v.stateChangedAt <|
    reads_field v.recallEffectiveAt <| reads_field v.recallGrace <|
    reads_field v.terminatedAt <| reads_field v.predecessor <|
    reads_field v.predecessorGeneration <| reads_textField v.stateReason _ <|
    reads_field v.lastProvenance <| reads_field v.sequence <|
    reads_done v)
    (by simp [Bounded])
  encode_pos v := flatten_pos v.id _

instance : LawfulCodec SupersessionEdge where
  Bounded v := v.reason.length ≤ maxProvenanceReasonBytes
  reads v := Reads.congr (reads_field v.predecessor <| reads_field v.predecessorGeneration <|
    reads_field v.successor <| reads_field v.successorGeneration <|
    reads_field v.recordedAt <| reads_field v.sequence <|
    reads_textField v.reason _ <| reads_done v)
    (by simp [Bounded])
  encode_pos v := flatten_pos v.predecessor _

instance : LawfulCodec ReservationSeries where
  Bounded v := v.spec.count.val ≤ 4096 ∧ v.members.length ≤ maxCollectionItems ∧
    Bounded v.lastProvenance
  reads v := Reads.congr (reads_field v.id <| reads_field v.generation <|
    reads_field v.claimant <| reads_field v.claimantGeneration <|
    reads_field v.spec <| reads_field v.firstInterval <|
    reads_field v.amount <| reads_field v.state <| reads_field v.createdAt <|
    reads_field v.stateChangedAt <| reads_field v.predecessorSeriesGeneration <|
    reads_field v.predecessorGeneration <| reads_field v.members <|
    reads_field v.lastProvenance <| reads_field v.sequence <|
    reads_done v)
    (by simp [Bounded])
  encode_pos v := flatten_pos v.id _

/-! ## Mutations -/

instance : LawfulCodec AttemptMutation where
  Bounded _ := True
  reads v := Reads.congr (reads_field v.attempt <| reads_field v.fingerprint <|
    reads_field v.outcome <| reads_field v.reservation <|
    reads_field v.generation <| reads_field v.resultSequence <|
    reads_field v.claimant <| reads_field v.at' <| reads_done v)
    (by simp [Bounded])
  encode_pos v := flatten_pos v.attempt _

instance : LawfulCodec StateMutation where
  Bounded v := v.reason.length ≤ maxProvenanceReasonBytes ∧ Bounded v.provenance
  reads v := Reads.congr (reads_field v.id <| reads_field v.generation <|
    reads_field v.fromState <| reads_field v.toState <| reads_field v.at' <|
    reads_textField v.reason _ <| reads_field v.provenance <|
    reads_field v.recallEffectiveAt <| reads_field v.attempt <|
    reads_done v)
    (by simp [Bounded])
  encode_pos v := flatten_pos v.id _

instance : LawfulCodec ReservationMutation where
  Bounded v := Bounded v.record ∧ Bounded v.series ∧ Bounded v.members ∧ Bounded v.edge ∧
    Bounded v.companions
  reads v := Reads.congr (reads_field v.record <| reads_field v.series <|
    reads_field v.members <| reads_field v.edge <|
    reads_field v.supersedeRecord <| reads_field v.companions <|
    reads_field v.attempt <| reads_done v)
    (by simp [Bounded])
  encode_pos v := flatten_pos v.record _

instance : LawfulCodec ApplicabilityMutation where
  Bounded _ := True
  reads v := Reads.congr (reads_field v.id <| reads_field v.generation <|
    reads_field v.applicability <| reads_field v.reason <|
    reads_field v.at' <| reads_done v)
    (by simp [Bounded])
  encode_pos v := flatten_pos v.id _

instance : LawfulCodec EpochMutation where
  Bounded _ := True
  reads v := Reads.congr (reads_field v.epoch <| reads_field v.coordinatorBoot <|
    reads_field v.at' <| reads_done v)
    (by simp [Bounded])
  encode_pos v := flatten_pos v.epoch _

instance : LawfulCodec FenceMutation where
  Bounded v := v.reason.length ≤ maxProvenanceReasonBytes
  reads v := Reads.congr (reads_field v.claimant <| reads_field v.claimantGeneration <|
    reads_field v.boot <| reads_field v.session <| reads_field v.at' <|
    reads_textField v.reason _ <| reads_field v.claimantWide <|
    reads_done v)
    (by simp [Bounded])
  encode_pos v := flatten_pos v.claimant _

instance : LawfulCodec ClaimantMutation where
  Bounded _ := True
  reads v := Reads.congr (reads_field v.claimant <| reads_field v.generation <|
    reads_field v.at' <| reads_done v)
    (by simp [Bounded])
  encode_pos v := flatten_pos v.claimant _

instance : LawfulCodec OvercommitMutation where
  Bounded _ := True
  reads v := Reads.congr (reads_field v.resource <| reads_field v.generation <|
    reads_field v.committedPeak <| reads_field v.ceiling <|
    reads_field v.window <| reads_field v.at' <| reads_field v.resolved <|
    reads_done v)
    (by simp [Bounded])
  encode_pos v := flatten_pos v.resource _

instance : LawfulCodec RetireMutation where
  Bounded v := v.ids.length ≤ maxCollectionItems ∧ v.ids.length = v.generations.length
  reads v := Reads.congr (reads_field v.ids <| reads_field v.generations <| reads_check <|
    reads_field v.at' <| reads_done v)
    (by simp [Bounded]; grind)
  encode_pos v := flatten_pos v.ids _

instance : LawfulCodec CapacityMutation where
  Bounded v := Bounded v.snapshot ∧ v.withdrawals.length ≤ maxCollectionItems
  reads v := Reads.congr (reads_field v.snapshot <| reads_field v.withdrawals <|
    reads_done v)
    (by simp [Bounded])
  encode_pos v := flatten_pos v.snapshot _

/-! ## The journal envelope -/

/-- The bounds of a durable record are those of the member its kind selects. -/
def BoundedBody : DurableRecord → Prop
  | .fabricBoot epoch => Bounded epoch
  | .capacitySnapshot capacity => Bounded capacity
  | .pathSnapshot path => Bounded path
  | .policyRecord policy => Bounded policy
  | .reservationCommit reservation => Bounded reservation
  | .reservationAmend reservation => Bounded reservation
  | .reservationSeries reservation => Bounded reservation
  | .reservationState state => Bounded state
  | .reservationApplicability applicability => Bounded applicability
  | .attemptOutcome attempt => Bounded attempt
  | .overcommit overcommit => Bounded overcommit
  | .retire retire => Bounded retire
  | .fence fence => Bounded fence
  | .claimantRegistration claimant => Bounded claimant

theorem reads_body (v : DurableRecord) :
    Reads (decodeBody v.kind) (encodeBody v) v (BoundedBody v) := by
  cases v with
  | fabricBoot epoch => exact reads_map (reads epoch)
  | capacitySnapshot capacity => exact reads_map (reads capacity)
  | pathSnapshot path => exact reads_map (reads path)
  | policyRecord policy => exact reads_map (reads policy)
  | reservationCommit reservation => exact reads_map (reads reservation)
  | reservationAmend reservation => exact reads_map (reads reservation)
  | reservationSeries reservation => exact reads_map (reads reservation)
  | reservationState state => exact reads_map (reads state)
  | reservationApplicability applicability => exact reads_map (reads applicability)
  | attemptOutcome attempt => exact reads_map (reads attempt)
  | overcommit overcommit => exact reads_map (reads overcommit)
  | retire retire => exact reads_map (reads retire)
  | fence fence => exact reads_map (reads fence)
  | claimantRegistration claimant => exact reads_map (reads claimant)

instance : LawfulCodec DurableRecord where
  Bounded := BoundedBody
  reads v := by
    have h := reads_bind (f := decodeBody) (reads v.kind) (reads_body v)
    rw [← List.append_nil (encodeBody v)] at h
    exact h.congr (by simp [Bounded])
  encode_pos v := flatten_pos v.kind _

theorem reads_envelope (v : DurableRecord) :
    Reads (decodeEnvelope v.kind) (encodeRecord v) v (Bounded v) := by
  have record := reads_bind (f := fun record : DurableRecord => failIf (record.kind != v.kind)
    (makeError .corrupt "durable record kind does not match its container") >>= fun _ =>
      pure record) (reads v) (reads_check (reads_pure v))
  rw [List.append_nil] at record
  have version := reads_bind (f := fun version : Word 16 => failIf (version != durableFormatVersion)
    (makeError .unsupported "durable record format version is not supported") >>= fun _ =>
      (decode >>= fun record : DurableRecord => failIf (record.kind != v.kind)
        (makeError .corrupt "durable record kind does not match its container") >>= fun _ =>
          pure record)) (reads durableFormatVersion) (reads_check record)
  exact version.congr (by simp [Bounded])

/-- A payload that is short enough to be framed is shorter than a 32-bit length. -/
theorem reads_decodeAll {α : Type} {d : Reader Error α} {bs : Text} {a : α} {ok : Prop}
    (h : Reads d bs a ok) (trailing : String) (len : bs.length < 4294967296) :
    (ok → decodeAll d trailing bs = .ok a) ∧ (¬ ok → ∃ e, decodeAll d trailing bs = .error e) := by
  have h := h len []
  rw [List.append_nil] at h
  constructor
  · intro hok
    simp only [decodeAll, h.1 hok, List.isEmpty_nil, if_true]
  · intro hok
    obtain ⟨e, he⟩ := h.2 hok
    exact ⟨e, by simp only [decodeAll, he]⟩

/-- **Round trip**: an encoded record decodes to itself exactly when it is within the bounds. -/
theorem decodeRecord_encodeRecord {v : DurableRecord} (len : (encodeRecord v).length < 4294967296) :
    decodeRecord (encodeRecord v) v.kind = .ok v ↔ Bounded v := by
  have h := reads_decodeAll (reads_envelope v) "durable record has trailing bytes" len
  constructor
  · intro hok
    by_contra hb
    obtain ⟨e, he⟩ := h.2 hb
    rw [decodeRecord, he] at hok
    exact absurd hok (by simp)
  · exact h.1

/-- What an encoded record decodes to, if it decodes, is the record. -/
theorem decodeRecord_sound {v w : DurableRecord} (len : (encodeRecord v).length < 4294967296)
    (h : decodeRecord (encodeRecord v) v.kind = .ok w) : w = v ∧ Bounded v := by
  have both := reads_decodeAll (reads_envelope v) "durable record has trailing bytes" len
  by_cases hb : Bounded v
  · have hv := both.1 hb
    rw [decodeRecord, hv] at h
    exact ⟨(Except.ok.inj h).symm, hb⟩
  · obtain ⟨e, he⟩ := both.2 hb
    rw [decodeRecord, he] at h
    exact absurd h (by simp)

/-! ## Snapshots -/

instance : LawfulCodec CapacityEntry where
  Bounded v := Bounded v.capacity ∧ v.priorGenerations.length ≤ maxCollectionItems
  reads v := Reads.congr (reads_field v.capacity <| reads_field v.snapshot <|
    reads_field v.ingestedAt <| reads_field v.withdrawn <|
    reads_field v.withdrawnAt <| reads_field v.priorGenerations <|
    reads_done v)
    (by simp [Bounded])
  encode_pos v := flatten_pos v.capacity _

instance : LawfulCodec PathEntry where
  Bounded v := Bounded v.path ∧ v.priorGenerations.length ≤ maxCollectionItems
  reads v := Reads.congr (reads_field v.path <| reads_field v.snapshot <|
    reads_field v.ingestedAt <| reads_field v.retired <|
    reads_field v.priorGenerations <| reads_done v)
    (by simp [Bounded])
  encode_pos v := flatten_pos v.path _

instance : LawfulCodec PolicyEntry where
  Bounded v := Bounded v.record ∧ v.priorGenerations.length ≤ maxCollectionItems
  reads v := Reads.congr (reads_field v.record <| reads_field v.ingestedAt <|
    reads_field v.priorGenerations <| reads_done v)
    (by simp [Bounded])
  encode_pos v := flatten_pos v.record _

instance : LawfulCodec SnapshotState where
  Bounded v := Bounded v.capacity ∧ Bounded v.paths ∧ Bounded v.policies ∧
    Bounded v.reservations ∧ Bounded v.series ∧ Bounded v.edges ∧
    v.attempts.length ≤ maxCollectionItems ∧ Bounded v.fences ∧
    v.claimants.length ≤ maxCollectionItems ∧ v.overcommits.length ≤ maxCollectionItems ∧
    Bounded v.retired
  reads v := Reads.congr (reads_field v.epoch <| reads_field v.coordinatorBoot <|
    reads_field v.sequence <| reads_field v.capacity <| reads_field v.paths <|
    reads_field v.policies <| reads_field v.reservations <|
    reads_field v.series <| reads_field v.edges <| reads_field v.attempts <|
    reads_field v.fences <| reads_field v.claimants <|
    reads_field v.overcommits <| reads_field v.retired <| reads_done v)
    (by simp [Bounded])
  encode_pos v := flatten_pos v.epoch _

/-- **Round trip**: an encoded snapshot decodes to itself, with nothing left over, exactly when it
is within the bounds. -/
theorem decodeSnapshot_encode {v : SnapshotState} (len : (encode v).length < 4294967296) :
    (decode : Reader Error SnapshotState).run (encode v) = .ok (v, []) ↔ Bounded v := by
  have h := reads v len []
  rw [List.append_nil] at h
  constructor
  · intro hok
    by_contra hb
    obtain ⟨e, he⟩ := h.2 hb
    rw [he] at hok
    exact absurd hok (by simp)
  · exact h.1

/-- What an encoded snapshot decodes to, if it decodes, is the snapshot. -/
theorem decodeSnapshot_sound {v w : SnapshotState} {rest : Text}
    (len : (encode v).length < 4294967296)
    (h : (decode : Reader Error SnapshotState).run (encode v) = .ok (w, rest)) :
    w = v ∧ rest = [] ∧ Bounded v := by
  rw [← List.append_nil (encode v)] at h
  obtain ⟨bounded, same, tail⟩ := (reads v).sound len h
  exact ⟨same, tail, bounded⟩

end Brf
