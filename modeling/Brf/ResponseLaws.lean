import Brf.MessageLaws
import Brf.Responses

/-!
# One payload for each response

The decoders of the responses accept exactly the encodings of the responses within their bounds,
followed by anything, as those of the requests do (`Brf.MessageLaws`).

* The bounds of a result are those of the records and texts in it. A series behind a flag that is not
  set is the one a fresh result has, and the two arrays of a preemption plan are parallel.

Results: `ExactPayload` of every payload type, `accepts_response` and `responses_exact`.
-/

namespace Brf

open Brf.Lib

/-! ## Fields -/

theorem accepts_size : Accepts decodeSize encodeSize fun n => n < 2 ^ 64 := by
  refine accepts_map (accepts (α := Word 64)) (fun n => ?_) fun raw _ => ?_
  · constructor
    · intro small
      exact ⟨⟨n, small⟩, by simp [Bounded], rfl⟩
    · rintro ⟨raw, -, rfl⟩
      exact raw.isLt
  · unfold encodeSize
    rw [Word.cast_val]

instance : ExactPayload ErrorCode where
  Within _ := True
  accepts := by
    have few : (Enumeration.all (α := ErrorCode)).length = 28 := rfl
    have number (v : ErrorCode) (raw : Word 16) :
        Enumeration.index v = raw.val ↔ Word.cast 16 (Enumeration.index v) = raw ∧ True := by
      have below := Enumeration.index_lt v
      have same : (Word.cast 16 (Enumeration.index v)).val = Enumeration.index v :=
        Nat.mod_eq_of_lt (by omega)
      rw [and_true]
      constructor
      · intro h
        rw [h, Word.cast_val]
      · rintro rfl
        exact same.symm
    have whole := accepts_bind (q := fun _ => True)
      (fun v : ErrorCode => (Word.cast 16 (Enumeration.index v) : Word 16)) accepts
      fun raw _ => (accepts_memberOf (by decide) "unknown error code" raw.val).congr
        (fun v => number v raw) fun _ _ => rfl
    exact whole.congr (fun v => by simp [Bounded]) fun v _ => List.append_nil _

theorem accepts_seriesPart : Accepts decodeSeriesPart encodeSeriesPart fun part =>
    if part.1 then Bounded part.2 else part.2 = {} := by
  have whole := accepts_bind (t := fun part : Bool × ReservationSeries =>
      if part.1 then encode part.2 else []) (q := fun part => if part.1 then Bounded part.2 else
        part.2 = {}) Prod.fst (accepts (α := Bool))
    (f := fun hasSeries =>
      if hasSeries then decode >>= fun series => pure (hasSeries, series)
      else pure ({} : ReservationSeries) >>= fun series => pure (hasSeries, series)) ?_
  · exact whole.congr (fun part => and_iff_right trivial) fun _ _ => rfl
  intro hasSeries _
  cases hasSeries with
  | false =>
    simp only [Bool.false_eq_true, if_false]
    refine accepts_map (accepts_pure _) (fun part => ?_) fun _ _ => rfl
    obtain ⟨flag, series⟩ := part
    cases flag <;> simp
  | true =>
    simp only [if_true]
    refine accepts_map (accepts (α := ReservationSeries)) (fun part => ?_) fun _ _ => rfl
    obtain ⟨flag, series⟩ := part
    cases flag <;> simp

theorem accepts_payloads {α : Type} [Codec α] [ExactPayload α] :
    Accepts (decode : Reader Error (List α)) encode fun items =>
      items.length ≤ maxCollectionItems ∧ ∀ a ∈ items, ExactPayload.Within a :=
  accepts_listWith ExactPayload.accepts

/-! ## Reports and results -/

instance : ExactPayload CapabilityDelta where
  Within _ := True
  accepts := Accepts.congr (accepts_record <|
    accepts_field CapabilityDelta.resource accepts fun _ =>
    accepts_field CapabilityDelta.generation accepts fun _ =>
    accepts_field CapabilityDelta.reservableCapacity accepts fun _ =>
    accepts_field CapabilityDelta.protectedHeadroom accepts fun _ =>
    accepts_field CapabilityDelta.committableCeiling accepts fun _ =>
    accepts_field CapabilityDelta.committedPeakBefore accepts fun _ =>
    accepts_field CapabilityDelta.committedPeakAfter accepts fun _ =>
    accepts_field CapabilityDelta.holdsPeak accepts fun _ =>
    accepts_field CapabilityDelta.remainingAfter accepts fun _ =>
    accepts_field CapabilityDelta.window accepts fun _ =>
    accepts_field CapabilityDelta.maintenanceCovers accepts fun _ =>
    accepts_field CapabilityDelta.overcommitEmergency accepts fun _ =>
    accepts_done (by rintro ⟨⟩; simp [and_assoc])) (by simp [Bounded]) fun _ _ => rfl

instance : ExactPayload ConflictEntry where
  Within _ := True
  accepts := Accepts.congr (accepts_record <|
    accepts_field ConflictEntry.id accepts fun _ =>
    accepts_field ConflictEntry.generation accepts fun _ =>
    accepts_field ConflictEntry.resource accepts fun _ =>
    accepts_field ConflictEntry.interval accepts fun _ =>
    accepts_field ConflictEntry.amount accepts fun _ =>
    accepts_field ConflictEntry.guarantee accepts fun _ =>
    accepts_field ConflictEntry.state accepts fun _ =>
    accepts_field ConflictEntry.isHold accepts fun _ =>
    accepts_done (by rintro ⟨⟩; simp [and_assoc])) (by simp [Bounded]) fun _ _ => rfl

instance : ExactPayload ConflictSet where
  Within v := v.entries.length ≤ maxCollectionItems ∧ v.totalConsidered < 2 ^ 64 ∧
    v.scanLimitHit < 2 ^ 64
  accepts := Accepts.congr (accepts_record <|
    accepts_field ConflictSet.entries accepts_payloads fun _ =>
    accepts_field ConflictSet.totalConsidered accepts_size fun _ =>
    accepts_field ConflictSet.scanLimitHit accepts_size fun _ =>
    accepts_field ConflictSet.truncated accepts fun _ =>
    accepts_done (by rintro ⟨⟩; simp [and_assoc]))
    (by simp [Bounded, ExactPayload.Within]) fun _ _ => rfl

instance : ExactPayload Assessment where
  Within v := v.explanation.length ≤ maxTextBytes ∧ v.deltas.length ≤ maxCollectionItems ∧
    ExactPayload.Within v.conflicts ∧ v.victims.length ≤ maxCollectionItems ∧
    v.victimGenerations.length ≤ maxCollectionItems ∧
    v.victims.length = v.victimGenerations.length
  accepts := Accepts.congr (accepts_record <|
    accepts_field Assessment.outcome accepts fun _ =>
    accepts_field Assessment.explanation (accepts_text (by decide)) fun _ =>
    accepts_field Assessment.deltas accepts_payloads fun _ =>
    accepts_field Assessment.conflicts ExactPayload.accepts fun _ =>
    accepts_field Assessment.victims accepts fun _ =>
    accepts_field Assessment.victimGenerations accepts fun _ =>
    accepts_check (fun v : Assessment => v.victims.length = v.victimGenerations.length)
      (fun v h => by simp [← h.1.2, ← h.2]) <|
    accepts_field Assessment.preemptionPlanned accepts fun _ =>
    accepts_field Assessment.reason accepts fun _ =>
    accepts_done (by rintro ⟨⟩; simp [and_assoc]))
    (by simp [Bounded, ExactPayload.Within]) fun _ _ => rfl

instance : ExactPayload CommitResult where
  Within v := Bounded v.record ∧ (if v.hasSeries then Bounded v.series else v.series = {}) ∧
    (v.members.length ≤ maxCollectionItems ∧ ∀ r ∈ v.members, Bounded r) ∧
    ExactPayload.Within v.report
  accepts := Accepts.congr (accepts_record <|
    accepts_field CommitResult.record accepts fun _ =>
    accepts_field (fun v : CommitResult => (v.hasSeries, v.series)) accepts_seriesPart fun _ =>
    accepts_field CommitResult.members accepts fun _ =>
    accepts_field CommitResult.report ExactPayload.accepts fun _ =>
    accepts_field CommitResult.replayed accepts fun _ =>
    accepts_field CommitResult.attempt accepts fun _ =>
    accepts_field CommitResult.sequence accepts fun _ =>
    accepts_done (by rintro ⟨⟩; simp [and_assoc, Prod.ext_iff]))
    (by simp [Bounded]) fun _ _ => rfl

instance : ExactPayload AmendmentResult where
  Within v := Bounded v.predecessor ∧ Bounded v.successor ∧
    (if v.hasSeries then Bounded v.series else v.series = {}) ∧
    (v.members.length ≤ maxCollectionItems ∧ ∀ r ∈ v.members, Bounded r) ∧
    ExactPayload.Within v.report
  accepts := Accepts.congr (accepts_record <|
    accepts_field AmendmentResult.predecessor accepts fun _ =>
    accepts_field AmendmentResult.successor accepts fun _ =>
    accepts_field (fun v : AmendmentResult => (v.hasSeries, v.series)) accepts_seriesPart fun _ =>
    accepts_field AmendmentResult.members accepts fun _ =>
    accepts_field AmendmentResult.report ExactPayload.accepts fun _ =>
    accepts_field AmendmentResult.replayed accepts fun _ =>
    accepts_done (by rintro ⟨⟩; simp [and_assoc, Prod.ext_iff]))
    (by simp [Bounded]) fun _ _ => rfl

instance : ExactPayload LifecycleResult where
  Within v := Bounded v.record ∧ v.transitions < 2 ^ 64
  accepts := Accepts.congr (accepts_record <|
    accepts_field LifecycleResult.record accepts fun _ =>
    accepts_field LifecycleResult.replayed accepts fun _ =>
    accepts_field LifecycleResult.transitions accepts_size fun _ =>
    accepts_done (by rintro ⟨⟩; simp [and_assoc])) (by simp [Bounded]) fun _ _ => rfl

instance : ExactPayload AttemptReconciliation where
  Within v := v.note.length ≤ maxProvenanceReasonBytes
  accepts := Accepts.congr (accepts_record <|
    accepts_field AttemptReconciliation.attempt accepts fun _ =>
    accepts_field AttemptReconciliation.known accepts fun _ =>
    accepts_field AttemptReconciliation.outcome accepts fun _ =>
    accepts_field AttemptReconciliation.reservation accepts fun _ =>
    accepts_field AttemptReconciliation.generation accepts fun _ =>
    accepts_field AttemptReconciliation.sequence accepts fun _ =>
    accepts_field AttemptReconciliation.committed accepts fun _ =>
    accepts_field AttemptReconciliation.note (accepts_text (by decide)) fun _ =>
    accepts_done (by rintro ⟨⟩; simp [and_assoc])) (by simp [Bounded]) fun _ _ => rfl

instance : ExactPayload RemainingCapacity where
  Within _ := True
  accepts := Accepts.congr (accepts_record <|
    accepts_field RemainingCapacity.resource accepts fun _ =>
    accepts_field RemainingCapacity.generation accepts fun _ =>
    accepts_field RemainingCapacity.window accepts fun _ =>
    accepts_field RemainingCapacity.committableCeiling accepts fun _ =>
    accepts_field RemainingCapacity.committedPeak accepts fun _ =>
    accepts_field RemainingCapacity.holdsPeak accepts fun _ =>
    accepts_field RemainingCapacity.remaining accepts fun _ =>
    accepts_field RemainingCapacity.maintenanceCovers accepts fun _ =>
    accepts_field RemainingCapacity.overcommitEmergency accepts fun _ =>
    accepts_done (by rintro ⟨⟩; simp [and_assoc])) (by simp [Bounded]) fun _ _ => rfl

instance : ExactPayload ChangePoint where
  Within _ := True
  accepts := Accepts.congr (accepts_record <|
    accepts_field ChangePoint.instant accepts fun _ =>
    accepts_field ChangePoint.committed accepts fun _ =>
    accepts_field ChangePoint.holds accepts fun _ =>
    accepts_done (by rintro ⟨⟩; simp [and_assoc])) (by simp [Bounded]) fun _ _ => rfl

instance : ExactPayload CapacityTimeline where
  Within v := v.points.length ≤ maxCollectionItems
  accepts := Accepts.congr (accepts_record <|
    accepts_field CapacityTimeline.resource accepts fun _ =>
    accepts_field CapacityTimeline.window accepts fun _ =>
    accepts_field CapacityTimeline.points accepts_payloads fun _ =>
    accepts_field CapacityTimeline.truncated accepts fun _ =>
    accepts_done (by rintro ⟨⟩; simp [and_assoc]))
    (by simp [Bounded, ExactPayload.Within]) fun _ _ => rfl

instance : ExactPayload LineageView where
  Within v := (v.ancestry.length ≤ maxCollectionItems ∧ ∀ e ∈ v.ancestry, Bounded e) ∧
    v.descendants.length ≤ maxCollectionItems ∧ ∀ e ∈ v.descendants, Bounded e
  accepts := Accepts.congr (accepts_record <|
    accepts_field LineageView.id accepts fun _ =>
    accepts_field LineageView.generation accepts fun _ =>
    accepts_field LineageView.ancestry accepts fun _ =>
    accepts_field LineageView.descendants accepts fun _ =>
    accepts_field LineageView.truncated accepts fun _ =>
    accepts_done (by rintro ⟨⟩; simp [and_assoc])) (by simp [Bounded]) fun _ _ => rfl

instance : ExactPayload OvercommitEntry where
  Within _ := True
  accepts := Accepts.congr (accepts_record <|
    accepts_field OvercommitEntry.resource accepts fun _ =>
    accepts_field OvercommitEntry.generation accepts fun _ =>
    accepts_field OvercommitEntry.committedPeak accepts fun _ =>
    accepts_field OvercommitEntry.committableCeiling accepts fun _ =>
    accepts_field OvercommitEntry.window accepts fun _ =>
    accepts_field OvercommitEntry.detectedAt accepts fun _ =>
    accepts_done (by rintro ⟨⟩; simp [and_assoc])) (by simp [Bounded]) fun _ _ => rfl

theorem accepts_entries : Accepts decodeEntries encode fun entries =>
    entries.length ≤ maxCollectionItems := by
  have whole := accepts_bind (q := fun entries : List OvercommitEntry =>
      entries.length ≤ maxCollectionItems ∧ ∀ entry ∈ entries, ExactPayload.Within entry)
    (fun entries : List OvercommitEntry => (Word.cast 32 entries.length : Word 32)) accepts
    fun count _ => (accepts_failIf (c := maxCollectionItems < count.val)
      (e := makeError .resourceExhausted "overcommit report exceeds the item bound")
      (accepts_readN (ExactPayload.accepts (α := OvercommitEntry)) count.val)).congr
        (fun entries => by rw [← and_assoc, count_eq_iff (by decide), and_assoc]) fun _ _ => rfl
  exact whole.congr (fun entries => by simp [Bounded, ExactPayload.Within]) fun _ _ => rfl

instance : ExactPayload OvercommitReport where
  Within v := v.entries.length ≤ maxCollectionItems
  accepts := Accepts.congr (accepts_record <|
    accepts_field OvercommitReport.entries accepts_entries fun _ =>
    accepts_field OvercommitReport.emergencyActive accepts fun _ =>
    accepts_done (by rintro ⟨⟩; simp)) (by simp [Bounded]) fun _ _ => rfl

instance : ExactPayload CoordinatorStats where
  Within _ := True
  accepts := Accepts.congr (accepts_record <|
    accepts_field CoordinatorStats.commits accepts fun _ =>
    accepts_field CoordinatorStats.commitRejections accepts fun _ =>
    accepts_field CoordinatorStats.replayedAttempts accepts fun _ =>
    accepts_field CoordinatorStats.amendments accepts fun _ =>
    accepts_field CoordinatorStats.releases accepts fun _ =>
    accepts_field CoordinatorStats.expiries accepts fun _ =>
    accepts_field CoordinatorStats.recalls accepts fun _ =>
    accepts_field CoordinatorStats.revocations accepts fun _ =>
    accepts_field CoordinatorStats.revalidations accepts fun _ =>
    accepts_field CoordinatorStats.fencedHolds accepts fun _ =>
    accepts_field CoordinatorStats.capacityIngestions accepts fun _ =>
    accepts_field CoordinatorStats.generationAdvances accepts fun _ =>
    accepts_field CoordinatorStats.durableRecords accepts fun _ =>
    accepts_field CoordinatorStats.overcommitEvents accepts fun _ =>
    accepts_field CoordinatorStats.trackedReservations accepts fun _ =>
    accepts_field CoordinatorStats.trackedSeries accepts fun _ =>
    accepts_field CoordinatorStats.liveHolds accepts fun _ =>
    accepts_field CoordinatorStats.indexEntries accepts fun _ =>
    accepts_field CoordinatorStats.epoch accepts fun _ =>
    accepts_field CoordinatorStats.coordinatorBoot accepts fun _ =>
    accepts_field CoordinatorStats.journalBytes accepts fun _ =>
    accepts_field CoordinatorStats.snapshotSequence accepts fun _ =>
    accepts_done (by rintro ⟨⟩; simp [and_assoc])) (by simp [Bounded]) fun _ _ => rfl

instance : ExactPayload HoldRecord where
  Within v := v.resources.length ≤ maxCollectionItems ∧
    v.releaseReason.length ≤ maxProvenanceReasonBytes
  accepts := Accepts.congr (accepts_record <|
    accepts_field HoldRecord.id accepts fun _ =>
    accepts_field HoldRecord.generation accepts fun _ =>
    accepts_field HoldRecord.claimant accepts fun _ =>
    accepts_field HoldRecord.claimantGeneration accepts fun _ =>
    accepts_field HoldRecord.session accepts fun _ =>
    accepts_field HoldRecord.boot accepts fun _ =>
    accepts_field HoldRecord.epoch accepts fun _ =>
    accepts_field HoldRecord.bindingKind accepts fun _ =>
    accepts_field HoldRecord.resources accepts fun _ =>
    accepts_field HoldRecord.path accepts fun _ =>
    accepts_field HoldRecord.pathGeneration accepts fun _ =>
    accepts_field HoldRecord.interval accepts fun _ =>
    accepts_field HoldRecord.amount accepts fun _ =>
    accepts_field HoldRecord.guarantee accepts fun _ =>
    accepts_field HoldRecord.createdAt accepts fun _ =>
    accepts_field HoldRecord.expiresAt accepts fun _ =>
    accepts_field HoldRecord.released accepts fun _ =>
    accepts_field HoldRecord.releasedAt accepts fun _ =>
    accepts_field HoldRecord.releaseReason (accepts_text (by decide)) fun _ =>
    accepts_done (by rintro ⟨⟩; simp [and_assoc])) (by simp [Bounded]) fun _ _ => rfl

/-! ## Payloads -/

instance : ExactPayload HelloResponse where
  Within _ := True
  accepts := Accepts.congr (accepts_record <|
    accepts_field HelloResponse.protocolVersion accepts fun _ =>
    accepts_field HelloResponse.epoch accepts fun _ =>
    accepts_field HelloResponse.coordinatorBoot accepts fun _ =>
    accepts_field HelloResponse.store accepts fun _ =>
    accepts_field HelloResponse.maxFrameBytes accepts fun _ =>
    accepts_field HelloResponse.durableWritable accepts fun _ =>
    accepts_done (by rintro ⟨⟩; simp [and_assoc])) (by simp [Bounded]) fun _ _ => rfl

instance : ExactPayload StatusResponse where
  Within v := v.message.length ≤ maxTextBytes
  accepts := Accepts.congr (accepts_record <|
    accepts_field StatusResponse.outcome accepts fun _ =>
    accepts_field StatusResponse.message (accepts_text (by decide)) fun _ =>
    accepts_field StatusResponse.reservation accepts fun _ =>
    accepts_field StatusResponse.generation accepts fun _ =>
    accepts_field StatusResponse.sequence accepts fun _ =>
    accepts_done (by rintro ⟨⟩; simp [and_assoc])) (by simp [Bounded]) fun _ _ => rfl

instance : ExactPayload CommitResponse where
  Within v := v.message.length ≤ maxTextBytes ∧ ExactPayload.Within v.result
  accepts := Accepts.congr (accepts_record <|
    accepts_field CommitResponse.outcome accepts fun _ =>
    accepts_field CommitResponse.message (accepts_text (by decide)) fun _ =>
    accepts_field CommitResponse.result ExactPayload.accepts fun _ =>
    accepts_done (by rintro ⟨⟩; simp [and_assoc])) (by simp [Bounded]) fun _ _ => rfl

instance : ExactPayload AmendmentResponse where
  Within v := v.message.length ≤ maxTextBytes ∧ ExactPayload.Within v.result
  accepts := Accepts.congr (accepts_record <|
    accepts_field AmendmentResponse.outcome accepts fun _ =>
    accepts_field AmendmentResponse.message (accepts_text (by decide)) fun _ =>
    accepts_field AmendmentResponse.result ExactPayload.accepts fun _ =>
    accepts_done (by rintro ⟨⟩; simp [and_assoc])) (by simp [Bounded]) fun _ _ => rfl

instance : ExactPayload LifecycleResponse where
  Within v := v.message.length ≤ maxTextBytes ∧ ExactPayload.Within v.result
  accepts := Accepts.congr (accepts_record <|
    accepts_field LifecycleResponse.outcome accepts fun _ =>
    accepts_field LifecycleResponse.message (accepts_text (by decide)) fun _ =>
    accepts_field LifecycleResponse.result ExactPayload.accepts fun _ =>
    accepts_done (by rintro ⟨⟩; simp [and_assoc])) (by simp [Bounded]) fun _ _ => rfl

instance : ExactPayload ReservationResponse where
  Within v := v.message.length ≤ maxTextBytes ∧ Bounded v.record
  accepts := Accepts.congr (accepts_record <|
    accepts_field ReservationResponse.outcome accepts fun _ =>
    accepts_field ReservationResponse.message (accepts_text (by decide)) fun _ =>
    accepts_field ReservationResponse.found accepts fun _ =>
    accepts_field ReservationResponse.record accepts fun _ =>
    accepts_done (by rintro ⟨⟩; simp [and_assoc])) (by simp [Bounded]) fun _ _ => rfl

instance : ExactPayload ReservationListResponse where
  Within v := v.message.length ≤ maxTextBytes ∧ v.records.length ≤ maxCollectionItems ∧
    ∀ r ∈ v.records, Bounded r
  accepts := Accepts.congr (accepts_record <|
    accepts_field ReservationListResponse.outcome accepts fun _ =>
    accepts_field ReservationListResponse.message (accepts_text (by decide)) fun _ =>
    accepts_field ReservationListResponse.records accepts fun _ =>
    accepts_field ReservationListResponse.truncated accepts fun _ =>
    accepts_done (by rintro ⟨⟩; simp [and_assoc])) (by simp [Bounded]) fun _ _ => rfl

instance : ExactPayload RemainingResponse where
  Within v := v.message.length ≤ maxTextBytes ∧ v.resources.length ≤ maxCollectionItems
  accepts := Accepts.congr (accepts_record <|
    accepts_field RemainingResponse.outcome accepts fun _ =>
    accepts_field RemainingResponse.message (accepts_text (by decide)) fun _ =>
    accepts_field RemainingResponse.resources accepts_payloads fun _ =>
    accepts_done (by rintro ⟨⟩; simp [and_assoc]))
    (by simp [Bounded, ExactPayload.Within]) fun _ _ => rfl

instance : ExactPayload ReportResponse where
  Within v := ExactPayload.Within v.report
  accepts := Accepts.congr (accepts_record <|
    accepts_field ReportResponse.outcome accepts fun _ =>
    accepts_field ReportResponse.report ExactPayload.accepts fun _ =>
    accepts_done (by rintro ⟨⟩; simp)) (by simp [Bounded]) fun _ _ => rfl

instance : ExactPayload TimelineResponse where
  Within v := ExactPayload.Within v.timeline
  accepts := Accepts.congr (accepts_record <|
    accepts_field TimelineResponse.outcome accepts fun _ =>
    accepts_field TimelineResponse.timeline ExactPayload.accepts fun _ =>
    accepts_done (by rintro ⟨⟩; simp)) (by simp [Bounded]) fun _ _ => rfl

instance : ExactPayload LineageResponse where
  Within v := ExactPayload.Within v.lineage
  accepts := Accepts.congr (accepts_record <|
    accepts_field LineageResponse.outcome accepts fun _ =>
    accepts_field LineageResponse.lineage ExactPayload.accepts fun _ =>
    accepts_done (by rintro ⟨⟩; simp)) (by simp [Bounded]) fun _ _ => rfl

instance : ExactPayload ReconciliationResponse where
  Within v := ExactPayload.Within v.reconciliation
  accepts := Accepts.congr (accepts_record <|
    accepts_field ReconciliationResponse.outcome accepts fun _ =>
    accepts_field ReconciliationResponse.reconciliation ExactPayload.accepts fun _ =>
    accepts_done (by rintro ⟨⟩; simp)) (by simp [Bounded]) fun _ _ => rfl

instance : ExactPayload OvercommitResponse where
  Within v := ExactPayload.Within v.report
  accepts := Accepts.congr (accepts_record <|
    accepts_field OvercommitResponse.outcome accepts fun _ =>
    accepts_field OvercommitResponse.report ExactPayload.accepts fun _ =>
    accepts_done (by rintro ⟨⟩; simp)) (by simp [Bounded]) fun _ _ => rfl

/-- The sizes of a recovery report are numbers of 64 bits. -/
def RecoveryReport.Within (report : RecoveryReport) : Prop :=
  report.truncatedBytes < 2 ^ 64 ∧ report.snapshotSequence < 2 ^ 64 ∧
    report.recordsReplayed < 2 ^ 64 ∧ report.recordsSkipped < 2 ^ 64 ∧
    report.lastSequence < 2 ^ 64 ∧ report.detail.length ≤ 256

theorem accepts_recovery : Accepts decodeRecovery (fun part => encodeRecovery part.1 part.2)
    fun part => part.1.Within :=
  Accepts.congr (accepts_record <|
    accepts_field (fun part : RecoveryReport × FabricEpoch => part.1.snapshotLoaded) accepts
      fun _ =>
    accepts_field (fun part : RecoveryReport × FabricEpoch => part.1.tornTailTruncated) accepts
      fun _ =>
    accepts_field (fun part : RecoveryReport × FabricEpoch => part.1.truncatedBytes) accepts_size
      fun _ =>
    accepts_field (fun part : RecoveryReport × FabricEpoch => part.1.snapshotSequence) accepts_size
      fun _ =>
    accepts_field (fun part : RecoveryReport × FabricEpoch => part.1.recordsReplayed) accepts_size
      fun _ =>
    accepts_field (fun part : RecoveryReport × FabricEpoch => part.1.recordsSkipped) accepts_size
      fun _ =>
    accepts_field (fun part : RecoveryReport × FabricEpoch => part.1.lastSequence) accepts_size
      fun _ =>
    accepts_field (fun part : RecoveryReport × FabricEpoch => part.2) accepts
      fun _ =>
    accepts_field (fun part : RecoveryReport × FabricEpoch => part.1.detail)
      (accepts_text (by decide)) fun _ =>
    accepts_done (by
      rintro ⟨⟨⟩, _⟩
      simp only [Prod.mk.injEq, RecoveryReport.mk.injEq]
      tauto))
    (by simp [Bounded, RecoveryReport.Within]) fun _ _ => rfl

instance : ExactPayload StatsResponse where
  Within v := v.recovery.Within
  accepts := Accepts.congr (accepts_record <|
    accepts_field StatsResponse.outcome accepts fun _ =>
    accepts_field StatsResponse.stats ExactPayload.accepts fun _ =>
    accepts_field (fun v : StatsResponse => (v.recovery, v.recoveredEpoch)) accepts_recovery fun _ =>
    accepts_done (by rintro ⟨⟩; simp [and_assoc, Prod.ext_iff]))
    (by simp [Bounded, ExactPayload.Within]) fun _ _ => rfl

instance : ExactPayload HoldResponse where
  Within v := v.message.length ≤ maxTextBytes ∧ ExactPayload.Within v.hold
  accepts := Accepts.congr (accepts_record <|
    accepts_field HoldResponse.outcome accepts fun _ =>
    accepts_field HoldResponse.message (accepts_text (by decide)) fun _ =>
    accepts_field HoldResponse.hold ExactPayload.accepts fun _ =>
    accepts_done (by rintro ⟨⟩; simp [and_assoc])) (by simp [Bounded]) fun _ _ => rfl

instance : ExactPayload ErrorResponse where
  Within v := v.message.length ≤ maxTextBytes
  accepts := Accepts.congr (accepts_record <|
    accepts_field ErrorResponse.code ExactPayload.accepts fun _ =>
    accepts_field ErrorResponse.outcome accepts fun _ =>
    accepts_field ErrorResponse.message (accepts_text (by decide)) fun _ =>
    accepts_done (by rintro ⟨⟩; simp [and_assoc]))
    (by simp [Bounded, ExactPayload.Within]) fun _ _ => rfl

/-! ## Responses -/

namespace Response

/-- The bounds that the decoder of a response imposes. -/
def Within : Response → Prop
  | hello response => ExactPayload.Within response
  | status response => ExactPayload.Within response
  | commit response => ExactPayload.Within response
  | amendment response => ExactPayload.Within response
  | lifecycle response => ExactPayload.Within response
  | reservation response => ExactPayload.Within response
  | reservations response => ExactPayload.Within response
  | remaining response => ExactPayload.Within response
  | report response => ExactPayload.Within response
  | timeline response => ExactPayload.Within response
  | lineage response => ExactPayload.Within response
  | reconciliation response => ExactPayload.Within response
  | overcommit response => ExactPayload.Within response
  | stats response => ExactPayload.Within response
  | hold response => ExactPayload.Within response
  | error response => ExactPayload.Within response

/-- A response that is made of its payload. -/
theorem accepts_kind {α : Type} [Codec α] [ExactPayload α] {make : α → Response} {kind : Kind}
    (typed : ∀ a, (make a).kind = kind) (only : ∀ r : Response, r.kind = kind → ∃ a, r = make a)
    (within : ∀ a, (make a).Within ↔ ExactPayload.Within a)
    (same : ∀ a, (make a).payload = encode a) :
    Accepts (make <$> decode : Reader Error Response) payload fun r => r.kind = kind ∧ r.Within := by
  have mapped : (make <$> decode : Reader Error Response) = decode >>= fun a => pure (make a) := by
    simp
  rw [mapped]
  refine accepts_map ExactPayload.accepts (fun r => ?_) fun a _ => same a
  constructor
  · rintro ⟨kinds, inside⟩
    obtain ⟨a, rfl⟩ := only r kinds
    exact ⟨a, (within a).mp inside, rfl⟩
  · rintro ⟨a, inside, rfl⟩
    exact ⟨typed a, (within a).mpr inside⟩

/-- **The decoder of a payload** accepts exactly the responses of that kind within their bounds. -/
theorem accepts_response (kind : Kind) :
    Accepts (reader kind) payload fun r => r.kind = kind ∧ r.Within := by
  cases kind with
  | _ =>
    exact accepts_kind (fun _ => rfl)
      (fun r typed => by cases r <;> first | exact ⟨_, rfl⟩ | cases typed) (fun _ => Iff.rfl)
      fun _ => rfl

end Response

/-! ## Answers -/

/-- What a client makes of a frame: an error, or a response of the kind it waits for. -/
theorem decodeAnswer_eq_ok {kind : Response.Kind} {frame : Frame} {r : Response} :
    decodeAnswer kind frame = .ok r ↔ r.Within ∧ r.payload <+: frame.payload ∧
      (frame.type = MessageType.error.code ∧ r.kind = .error ∨
        frame.type ≠ MessageType.error.code ∧ r.kind = kind ∧
          (kind = .hello → frame.type = MessageType.helloAck.code)) := by
  unfold decodeAnswer
  by_cases failed : frame.type = MessageType.error.code
  · rw [if_pos failed, (Response.accepts_response .error).run'_eq_ok]
    simp [failed, and_assoc, and_comm]
  · rw [if_neg failed]
    by_cases greeting : kind = .hello ∧ frame.type ≠ MessageType.helloAck.code
    · rw [if_pos (by simpa using greeting)]
      simp [failed, greeting]
    · rw [if_neg (by simpa using greeting), (Response.accepts_response kind).run'_eq_ok]
      have allowed : kind = .hello → frame.type = MessageType.helloAck.code := by
        intro hello
        by_contra other
        exact greeting ⟨hello, other⟩
      constructor
      · rintro ⟨⟨asked, within⟩, begins⟩
        exact ⟨within, begins, .inr ⟨failed, asked, allowed⟩⟩
      · rintro ⟨within, begins, no | ⟨-, asked, -⟩⟩
        · exact absurd no.1 failed
        · exact ⟨⟨asked, within⟩, begins⟩

/-- The frame of a response that is asked for, or of an error, is read as what it is exactly if that is
within its bounds. -/
theorem decodeAnswer_own {kind : Response.Kind} {r : Response}
    (asked : r.kind = kind ∨ r.kind = .error) :
    decodeAnswer kind { type := r.type.code, payload := r.payload } = .ok r ↔ r.Within := by
  rw [decodeAnswer_eq_ok]
  refine ⟨fun read => read.1, fun within => ⟨within, List.prefix_rfl, ?_⟩⟩
  cases r with
  | error response => exact .inl ⟨rfl, rfl⟩
  | hello response =>
    obtain rfl := asked.resolve_right (by simp [Response.kind])
    exact .inr ⟨by simp only [Response.type]; decide, rfl, fun _ => rfl⟩
  | _ =>
    obtain rfl := asked.resolve_right (by simp [Response.kind])
    exact .inr ⟨by simp only [Response.type]; decide, rfl, fun no => nomatch no⟩

end Brf
