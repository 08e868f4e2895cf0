import Brf.Journal
import Brf.Messages
import Brf.Reports

/-!
# The responses of the protocol

Model of the response payloads of `src/protocol.cpp`, with the codecs of the reports and results of
`src/codec.cpp` that they carry.

* One `Codec` for each payload, field by field in the order of the source. A size takes 64 bits.
* A result that may belong to a series carries a flag and, behind it, the series if there is one.
* `Response` is a response with the type of its frame. What a client decodes depends on what it has
  asked for: `Response.Kind` are the payloads there are, and `decodeAnswer` is what the client does
  with a frame when it waits for one of a kind.
* The recovered epoch is a field of the recovery report that the store leaves unset; it stands beside
  the report here.
-/

namespace Brf

open Brf.Lib

/-! ## Fields -/

/-- `Writer::u64` of a size. -/
def encodeSize (n : Nat) : Text := encode (Word.cast 64 n)

/-- `Reader::u64` of a size. -/
def decodeSize : Reader Error Nat := do
  let raw : Word 64 ← decode
  pure raw.val

/-- Error codes are 16 bits wide. -/
instance : Codec ErrorCode where
  encode v := encode (Word.cast 16 (Enumeration.index v))
  decode := do
    let raw : Word 16 ← decode
    memberOf "unknown error code" raw.val

/-- The flag `has_series` and the series behind it. -/
def encodeSeriesPart (part : Bool × ReservationSeries) : Text :=
  encode part.1 ++ if part.1 then encode part.2 else []

/-- The reader of `encodeSeriesPart`: without the flag the series is left as it was made. -/
def decodeSeriesPart : Reader Error (Bool × ReservationSeries) := do
  let hasSeries : Bool ← decode
  let series ← if hasSeries then decode else pure {}
  pure (hasSeries, series)

/-! ## Reports and results -/

instance : Codec CapabilityDelta where
  encode v := List.flatten [
    encode v.resource, encode v.generation, encode v.reservableCapacity,
    encode v.protectedHeadroom, encode v.committableCeiling, encode v.committedPeakBefore,
    encode v.committedPeakAfter, encode v.holdsPeak, encode v.remainingAfter, encode v.window,
    encode v.maintenanceCovers, encode v.overcommitEmergency]
  decode := do
    let resource ← decode
    let generation ← decode
    let reservableCapacity ← decode
    let protectedHeadroom ← decode
    let committableCeiling ← decode
    let committedPeakBefore ← decode
    let committedPeakAfter ← decode
    let holdsPeak ← decode
    let remainingAfter ← decode
    let window ← decode
    let maintenanceCovers ← decode
    let overcommitEmergency ← decode
    pure { resource, generation, reservableCapacity, protectedHeadroom, committableCeiling,
           committedPeakBefore, committedPeakAfter, holdsPeak, remainingAfter, window,
           maintenanceCovers, overcommitEmergency }

instance : Codec ConflictEntry where
  encode v := List.flatten [
    encode v.id, encode v.generation, encode v.resource, encode v.interval, encode v.amount,
    encode v.guarantee, encode v.state, encode v.isHold]
  decode := do
    let id ← decode
    let generation ← decode
    let resource ← decode
    let interval ← decode
    let amount ← decode
    let guarantee ← decode
    let state ← decode
    let isHold ← decode
    pure { id, generation, resource, interval, amount, guarantee, state, isHold }

instance : Codec ConflictSet where
  encode v := List.flatten [
    encode v.entries, encodeSize v.totalConsidered, encodeSize v.scanLimitHit, encode v.truncated]
  decode := do
    let entries ← decode
    let totalConsidered ← decodeSize
    let scanLimitHit ← decodeSize
    let truncated ← decode
    pure { entries, totalConsidered, scanLimitHit, truncated }

/-- An `AdmissionReport`. -/
instance : Codec Assessment where
  encode v := List.flatten [
    encode v.outcome, encodeText v.explanation, encode v.deltas, encode v.conflicts,
    encode v.victims, encode v.victimGenerations, encode v.preemptionPlanned, encode v.reason]
  decode := do
    let outcome ← decode
    let explanation ← decodeText maxTextBytes
    let deltas ← decode
    let conflicts ← decode
    let victims ← decode
    let victimGenerations ← decode
    failIf (victims.length != victimGenerations.length)
      (makeError .corrupt "preemption plan arrays are not parallel")
    let preemptionPlanned ← decode
    let reason ← decode
    pure { outcome, explanation, deltas, conflicts, victims, victimGenerations, preemptionPlanned,
           reason }

instance : Codec CommitResult where
  encode v := List.flatten [
    encode v.record, encodeSeriesPart (v.hasSeries, v.series), encode v.members, encode v.report,
    encode v.replayed, encode v.attempt, encode v.sequence]
  decode := do
    let record ← decode
    let part ← decodeSeriesPart
    let members ← decode
    let report ← decode
    let replayed ← decode
    let attempt ← decode
    let sequence ← decode
    pure { record, hasSeries := part.1, series := part.2, members, report, replayed, attempt,
           sequence }

instance : Codec AmendmentResult where
  encode v := List.flatten [
    encode v.predecessor, encode v.successor, encodeSeriesPart (v.hasSeries, v.series),
    encode v.members, encode v.report, encode v.replayed]
  decode := do
    let predecessor ← decode
    let successor ← decode
    let part ← decodeSeriesPart
    let members ← decode
    let report ← decode
    let replayed ← decode
    pure { predecessor, successor, hasSeries := part.1, series := part.2, members, report,
           replayed }

instance : Codec LifecycleResult where
  encode v := List.flatten [encode v.record, encode v.replayed, encodeSize v.transitions]
  decode := do
    let record ← decode
    let replayed ← decode
    let transitions ← decodeSize
    pure { record, replayed, transitions }

instance : Codec AttemptReconciliation where
  encode v := List.flatten [
    encode v.attempt, encode v.known, encode v.outcome, encode v.reservation, encode v.generation,
    encode v.sequence, encode v.committed, encodeText v.note]
  decode := do
    let attempt ← decode
    let known ← decode
    let outcome ← decode
    let reservation ← decode
    let generation ← decode
    let sequence ← decode
    let committed ← decode
    let note ← decodeText maxProvenanceReasonBytes
    pure { attempt, known, outcome, reservation, generation, sequence, committed, note }

instance : Codec RemainingCapacity where
  encode v := List.flatten [
    encode v.resource, encode v.generation, encode v.window, encode v.committableCeiling,
    encode v.committedPeak, encode v.holdsPeak, encode v.remaining, encode v.maintenanceCovers,
    encode v.overcommitEmergency]
  decode := do
    let resource ← decode
    let generation ← decode
    let window ← decode
    let committableCeiling ← decode
    let committedPeak ← decode
    let holdsPeak ← decode
    let remaining ← decode
    let maintenanceCovers ← decode
    let overcommitEmergency ← decode
    pure { resource, generation, window, committableCeiling, committedPeak, holdsPeak, remaining,
           maintenanceCovers, overcommitEmergency }

instance : Codec ChangePoint where
  encode v := List.flatten [encode v.instant, encode v.committed, encode v.holds]
  decode := do
    let instant ← decode
    let committed ← decode
    let holds ← decode
    pure { instant, committed, holds }

instance : Codec CapacityTimeline where
  encode v := List.flatten [encode v.resource, encode v.window, encode v.points, encode v.truncated]
  decode := do
    let resource ← decode
    let window ← decode
    let points ← decode
    let truncated ← decode
    pure { resource, window, points, truncated }

instance : Codec LineageView where
  encode v := List.flatten [
    encode v.id, encode v.generation, encode v.ancestry, encode v.descendants, encode v.truncated]
  decode := do
    let id ← decode
    let generation ← decode
    let ancestry ← decode
    let descendants ← decode
    let truncated ← decode
    pure { id, generation, ancestry, descendants, truncated }

instance : Codec OvercommitEntry where
  encode v := List.flatten [
    encode v.resource, encode v.generation, encode v.committedPeak, encode v.committableCeiling,
    encode v.window, encode v.detectedAt]
  decode := do
    let resource ← decode
    let generation ← decode
    let committedPeak ← decode
    let committableCeiling ← decode
    let window ← decode
    let detectedAt ← decode
    pure { resource, generation, committedPeak, committableCeiling, window, detectedAt }

/-- The entries of an overcommit report: a list with an error of its own. -/
def decodeEntries : Reader Error (List OvercommitEntry) := do
  let count : Word 32 ← decode
  failIf (maxCollectionItems < count.val)
    (makeError .resourceExhausted "overcommit report exceeds the item bound")
  readN decode count.val

instance : Codec OvercommitReport where
  encode v := List.flatten [encode v.entries, encode v.emergencyActive]
  decode := do
    let entries ← decodeEntries
    let emergencyActive ← decode
    pure { entries, emergencyActive }

instance : Codec CoordinatorStats where
  encode v := List.flatten [
    encode v.commits, encode v.commitRejections, encode v.replayedAttempts, encode v.amendments,
    encode v.releases, encode v.expiries, encode v.recalls, encode v.revocations,
    encode v.revalidations, encode v.fencedHolds, encode v.capacityIngestions,
    encode v.generationAdvances, encode v.durableRecords, encode v.overcommitEvents,
    encode v.trackedReservations, encode v.trackedSeries, encode v.liveHolds,
    encode v.indexEntries, encode v.epoch, encode v.coordinatorBoot, encode v.journalBytes,
    encode v.snapshotSequence]
  decode := do
    let commits ← decode
    let commitRejections ← decode
    let replayedAttempts ← decode
    let amendments ← decode
    let releases ← decode
    let expiries ← decode
    let recalls ← decode
    let revocations ← decode
    let revalidations ← decode
    let fencedHolds ← decode
    let capacityIngestions ← decode
    let generationAdvances ← decode
    let durableRecords ← decode
    let overcommitEvents ← decode
    let trackedReservations ← decode
    let trackedSeries ← decode
    let liveHolds ← decode
    let indexEntries ← decode
    let epoch ← decode
    let coordinatorBoot ← decode
    let journalBytes ← decode
    let snapshotSequence ← decode
    pure { commits, commitRejections, replayedAttempts, amendments, releases, expiries, recalls,
           revocations, revalidations, fencedHolds, capacityIngestions, generationAdvances,
           durableRecords, overcommitEvents, trackedReservations, trackedSeries, liveHolds,
           indexEntries, epoch, coordinatorBoot, journalBytes, snapshotSequence }

instance : Codec HoldRecord where
  encode v := List.flatten [
    encode v.id, encode v.generation, encode v.claimant, encode v.claimantGeneration,
    encode v.session, encode v.boot, encode v.epoch, encode v.bindingKind, encode v.resources,
    encode v.path, encode v.pathGeneration, encode v.interval, encode v.amount,
    encode v.guarantee, encode v.createdAt, encode v.expiresAt, encode v.released,
    encode v.releasedAt, encodeText v.releaseReason]
  decode := do
    let id ← decode
    let generation ← decode
    let claimant ← decode
    let claimantGeneration ← decode
    let session ← decode
    let boot ← decode
    let epoch ← decode
    let bindingKind ← decode
    let resources ← decode
    let path ← decode
    let pathGeneration ← decode
    let interval ← decode
    let amount ← decode
    let guarantee ← decode
    let createdAt ← decode
    let expiresAt ← decode
    let released ← decode
    let releasedAt ← decode
    let releaseReason ← decodeText maxProvenanceReasonBytes
    pure { id, generation, claimant, claimantGeneration, session, boot, epoch, bindingKind,
           resources, path, pathGeneration, interval, amount, guarantee, createdAt, expiresAt,
           released, releasedAt, releaseReason }

/-! ## Payloads -/

/-- `HelloResponse`. -/
structure HelloResponse where
  protocolVersion : Word 16 := wireProtocolVersion
  epoch : FabricEpoch := 0
  coordinatorBoot : Identity128 := 0
  store : Identity128 := 0
  maxFrameBytes : Word 32 := Word.cast 32 Brf.maxFrameBytes
  durableWritable : Bool := true
  deriving DecidableEq, Repr, Inhabited

instance : Codec HelloResponse where
  encode v := List.flatten [
    encode v.protocolVersion, encode v.epoch, encode v.coordinatorBoot, encode v.store,
    encode v.maxFrameBytes, encode v.durableWritable]
  decode := do
    let protocolVersion ← decode
    let epoch ← decode
    let coordinatorBoot ← decode
    let store ← decode
    let maxFrameBytes ← decode
    let durableWritable ← decode
    pure { protocolVersion, epoch, coordinatorBoot, store, maxFrameBytes, durableWritable }

/-- `StatusResponse`. -/
structure StatusResponse where
  outcome : AdmissionOutcome := .committable
  message : Text := []
  reservation : ReservationId := 0
  generation : ReservationGeneration := 0
  sequence : DurableSequence := 0
  deriving DecidableEq, Repr, Inhabited

instance : Codec StatusResponse where
  encode v := List.flatten [
    encode v.outcome, encodeText v.message, encode v.reservation, encode v.generation,
    encode v.sequence]
  decode := do
    let outcome ← decode
    let message ← decodeText maxTextBytes
    let reservation ← decode
    let generation ← decode
    let sequence ← decode
    pure { outcome, message, reservation, generation, sequence }

/-- `CommitResponse`. -/
structure CommitResponse where
  outcome : AdmissionOutcome := .committable
  message : Text := []
  result : CommitResult := {}
  deriving DecidableEq, Repr, Inhabited

instance : Codec CommitResponse where
  encode v := List.flatten [encode v.outcome, encodeText v.message, encode v.result]
  decode := do
    let outcome ← decode
    let message ← decodeText maxTextBytes
    let result ← decode
    pure { outcome, message, result }

/-- `AmendmentResponse`. -/
structure AmendmentResponse where
  outcome : AdmissionOutcome := .committable
  message : Text := []
  result : AmendmentResult := {}
  deriving DecidableEq, Repr, Inhabited

instance : Codec AmendmentResponse where
  encode v := List.flatten [encode v.outcome, encodeText v.message, encode v.result]
  decode := do
    let outcome ← decode
    let message ← decodeText maxTextBytes
    let result ← decode
    pure { outcome, message, result }

/-- `LifecycleResponse`. -/
structure LifecycleResponse where
  outcome : AdmissionOutcome := .committable
  message : Text := []
  result : LifecycleResult := {}
  deriving DecidableEq, Repr, Inhabited

instance : Codec LifecycleResponse where
  encode v := List.flatten [encode v.outcome, encodeText v.message, encode v.result]
  decode := do
    let outcome ← decode
    let message ← decodeText maxTextBytes
    let result ← decode
    pure { outcome, message, result }

/-- `ReservationResponse`. -/
structure ReservationResponse where
  outcome : AdmissionOutcome := .committable
  message : Text := []
  found : Bool := false
  record : ReservationRecord := {}
  deriving DecidableEq, Repr, Inhabited

instance : Codec ReservationResponse where
  encode v := List.flatten [encode v.outcome, encodeText v.message, encode v.found, encode v.record]
  decode := do
    let outcome ← decode
    let message ← decodeText maxTextBytes
    let found ← decode
    let record ← decode
    pure { outcome, message, found, record }

/-- `ReservationListResponse`. -/
structure ReservationListResponse where
  outcome : AdmissionOutcome := .committable
  message : Text := []
  records : List ReservationRecord := []
  truncated : Bool := false
  deriving DecidableEq, Repr, Inhabited

instance : Codec ReservationListResponse where
  encode v := List.flatten [
    encode v.outcome, encodeText v.message, encode v.records, encode v.truncated]
  decode := do
    let outcome ← decode
    let message ← decodeText maxTextBytes
    let records ← decode
    let truncated ← decode
    pure { outcome, message, records, truncated }

/-- `RemainingResponse`. -/
structure RemainingResponse where
  outcome : AdmissionOutcome := .committable
  message : Text := []
  resources : List RemainingCapacity := []
  deriving DecidableEq, Repr, Inhabited

instance : Codec RemainingResponse where
  encode v := List.flatten [encode v.outcome, encodeText v.message, encode v.resources]
  decode := do
    let outcome ← decode
    let message ← decodeText maxTextBytes
    let resources ← decode
    pure { outcome, message, resources }

/-- `ReportResponse`. -/
structure ReportResponse where
  outcome : AdmissionOutcome := .committable
  report : AdmissionReport := {}
  deriving DecidableEq, Repr, Inhabited

instance : Codec ReportResponse where
  encode v := List.flatten [encode v.outcome, encode v.report]
  decode := do
    let outcome ← decode
    let report ← decode
    pure { outcome, report }

/-- `TimelineResponse`. -/
structure TimelineResponse where
  outcome : AdmissionOutcome := .committable
  timeline : CapacityTimeline := {}
  deriving DecidableEq, Repr, Inhabited

instance : Codec TimelineResponse where
  encode v := List.flatten [encode v.outcome, encode v.timeline]
  decode := do
    let outcome ← decode
    let timeline ← decode
    pure { outcome, timeline }

/-- `LineageResponse`. -/
structure LineageResponse where
  outcome : AdmissionOutcome := .committable
  lineage : LineageView := {}
  deriving DecidableEq, Repr, Inhabited

instance : Codec LineageResponse where
  encode v := List.flatten [encode v.outcome, encode v.lineage]
  decode := do
    let outcome ← decode
    let lineage ← decode
    pure { outcome, lineage }

/-- `ReconciliationResponse`. -/
structure ReconciliationResponse where
  outcome : AdmissionOutcome := .committable
  reconciliation : AttemptReconciliation := {}
  deriving DecidableEq, Repr, Inhabited

instance : Codec ReconciliationResponse where
  encode v := List.flatten [encode v.outcome, encode v.reconciliation]
  decode := do
    let outcome ← decode
    let reconciliation ← decode
    pure { outcome, reconciliation }

/-- `OvercommitResponse`. -/
structure OvercommitResponse where
  outcome : AdmissionOutcome := .committable
  report : OvercommitReport := {}
  deriving DecidableEq, Repr, Inhabited

instance : Codec OvercommitResponse where
  encode v := List.flatten [encode v.outcome, encode v.report]
  decode := do
    let outcome ← decode
    let report ← decode
    pure { outcome, report }

/-- `StatsResponse`, with the recovered epoch of the report. -/
structure StatsResponse where
  outcome : AdmissionOutcome := .committable
  stats : CoordinatorStats := {}
  recovery : RecoveryReport := {}
  recoveredEpoch : FabricEpoch := 0
  deriving DecidableEq, Repr

/-- A `RecoveryReport` with its epoch. -/
def encodeRecovery (report : RecoveryReport) (epoch : FabricEpoch) : Text :=
  List.flatten [
    encode report.snapshotLoaded, encode report.tornTailTruncated, encodeSize report.truncatedBytes,
    encodeSize report.snapshotSequence, encodeSize report.recordsReplayed,
    encodeSize report.recordsSkipped, encodeSize report.lastSequence, encode epoch,
    encodeText report.detail]

/-- The reader of `encodeRecovery`. -/
def decodeRecovery : Reader Error (RecoveryReport × FabricEpoch) := do
  let snapshotLoaded ← decode
  let tornTailTruncated ← decode
  let truncatedBytes ← decodeSize
  let snapshotSequence ← decodeSize
  let recordsReplayed ← decodeSize
  let recordsSkipped ← decodeSize
  let lastSequence ← decodeSize
  let epoch ← decode
  let detail ← decodeText 256
  pure ({ snapshotLoaded, tornTailTruncated, truncatedBytes, snapshotSequence, recordsReplayed,
          recordsSkipped, lastSequence, detail }, epoch)

instance : Codec StatsResponse where
  encode v := List.flatten [
    encode v.outcome, encode v.stats, encodeRecovery v.recovery v.recoveredEpoch]
  decode := do
    let outcome ← decode
    let stats ← decode
    let part ← decodeRecovery
    pure { outcome, stats, recovery := part.1, recoveredEpoch := part.2 }

/-- `HoldResponse`. -/
structure HoldResponse where
  outcome : AdmissionOutcome := .committable
  message : Text := []
  hold : HoldRecord := {}
  deriving DecidableEq, Repr, Inhabited

instance : Codec HoldResponse where
  encode v := List.flatten [encode v.outcome, encodeText v.message, encode v.hold]
  decode := do
    let outcome ← decode
    let message ← decodeText maxTextBytes
    let hold ← decode
    pure { outcome, message, hold }

/-- `ErrorResponse`. -/
structure ErrorResponse where
  code : ErrorCode := .internal
  outcome : AdmissionOutcome := .invalidRequest
  message : Text := []
  deriving DecidableEq, Repr, Inhabited

instance : Codec ErrorResponse where
  encode v := List.flatten [encode v.code, encode v.outcome, encodeText v.message]
  decode := do
    let code ← decode
    let outcome ← decode
    let message ← decodeText maxTextBytes
    pure { code, outcome, message }

/-! ## Responses -/

/-- A response, by its payload. -/
inductive Response where
  | hello (response : HelloResponse)
  | status (response : StatusResponse)
  | commit (response : CommitResponse)
  | amendment (response : AmendmentResponse)
  | lifecycle (response : LifecycleResponse)
  | reservation (response : ReservationResponse)
  | reservations (response : ReservationListResponse)
  | remaining (response : RemainingResponse)
  | report (response : ReportResponse)
  | timeline (response : TimelineResponse)
  | lineage (response : LineageResponse)
  | reconciliation (response : ReconciliationResponse)
  | overcommit (response : OvercommitResponse)
  | stats (response : StatsResponse)
  | hold (response : HoldResponse)
  | error (response : ErrorResponse)
  deriving DecidableEq, Repr

namespace Response

/-- The payloads there are. -/
inductive Kind where
  | hello | status | commit | amendment | lifecycle | reservation | reservations | remaining
  | report | timeline | lineage | reconciliation | overcommit | stats | hold | error
  deriving DecidableEq, Repr

def kind : Response → Kind
  | hello _ => .hello
  | status _ => .status
  | commit _ => .commit
  | amendment _ => .amendment
  | lifecycle _ => .lifecycle
  | reservation _ => .reservation
  | reservations _ => .reservations
  | remaining _ => .remaining
  | report _ => .report
  | timeline _ => .timeline
  | lineage _ => .lineage
  | reconciliation _ => .reconciliation
  | overcommit _ => .overcommit
  | stats _ => .stats
  | hold _ => .hold
  | error _ => .error

/-- The type of the frame. -/
def type : Response → MessageType
  | hello _ => .helloAck
  | error _ => .error
  | _ => .ok

/-- The bytes of the payload. -/
def payload : Response → Text
  | hello response => encode response
  | status response => encode response
  | commit response => encode response
  | amendment response => encode response
  | lifecycle response => encode response
  | reservation response => encode response
  | reservations response => encode response
  | remaining response => encode response
  | report response => encode response
  | timeline response => encode response
  | lineage response => encode response
  | reconciliation response => encode response
  | overcommit response => encode response
  | stats response => encode response
  | hold response => encode response
  | error response => encode response

/-- The decoder of a payload. -/
def reader : Kind → Reader Error Response
  | .hello => Response.hello <$> decode
  | .status => Response.status <$> decode
  | .commit => Response.commit <$> decode
  | .amendment => Response.amendment <$> decode
  | .lifecycle => Response.lifecycle <$> decode
  | .reservation => Response.reservation <$> decode
  | .reservations => Response.reservations <$> decode
  | .remaining => Response.remaining <$> decode
  | .report => Response.report <$> decode
  | .timeline => Response.timeline <$> decode
  | .lineage => Response.lineage <$> decode
  | .reconciliation => Response.reconciliation <$> decode
  | .overcommit => Response.overcommit <$> decode
  | .stats => Response.stats <$> decode
  | .hold => Response.hold <$> decode
  | .error => Response.error <$> decode

end Response

/-- What a client does with a frame when it waits for a response of a kind. -/
def decodeAnswer (kind : Response.Kind) (frame : Frame) : Result Response :=
  if frame.type = MessageType.error.code then (Response.reader .error).run' frame.payload
  else if kind = .hello && frame.type != MessageType.helloAck.code then
    .error (makeError .internal "coordinator refused the handshake")
  else (Response.reader kind).run' frame.payload

end Brf
