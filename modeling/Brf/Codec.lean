import Brf.Durable
import Brf.Wire

/-!
# Codecs of the durable types

Model of `src/codec.cpp`: one `encode`/`decode` pair a type, field by field in the source's order,
with the bounds the decoders impose.

`encodeRecord` / `decodeRecord` are the journal envelope: a format version, the kind, the payload,
and no trailing bytes.

Out of scope: the codecs of reports, requests and holds, which only the transport uses.
-/

namespace Brf

open Brf.Lib

/-- `kDurableFormatVersion`. -/
def durableFormatVersion : Word 16 := 1

/-! ## Enumerations -/

instance : Codec BindingKind := ⟨encodeEnum, decodeEnum "unknown binding kind"⟩
instance : Codec GuaranteeClass := ⟨encodeEnum, decodeEnum "unknown guarantee class"⟩
instance : Codec ReservationState := ⟨encodeEnum, decodeEnum "unknown reservation state"⟩
instance : Codec Applicability := ⟨encodeEnum, decodeEnum "unknown applicability value"⟩
instance : Codec ApplicabilityReason := ⟨encodeEnum, decodeEnum "unknown applicability reason"⟩
instance : Codec AdmissionOutcome := ⟨encodeEnum, decodeEnum "unknown admission outcome"⟩

/-- Kinds are 16 bits wide and numbered from 1. -/
instance : Codec RecordKind where
  encode v := encode (Word.cast 16 (Enumeration.index v + 1))
  decode := do
    let raw : Word 16 ← decode
    failIf (raw.val < 1 || 14 < raw.val) (makeError .corrupt "unknown record kind")
    memberOf "unknown record kind" (raw.val - 1)

/-! ## Intervals, references and origins -/

instance : Codec Interval where
  encode v := List.flatten [encode v.start, encode v.stop]
  decode := do
    let start ← decode
    let stop ← decode
    pure { start, stop }

instance : Codec ResourceRef where
  encode v := List.flatten [encode v.resource, encode v.generation]
  decode := do
    let resource ← decode
    let generation ← decode
    pure { resource, generation }

instance : Codec FailureDomainRef where
  encode v := List.flatten [encode v.domain, encode v.generation]
  decode := do
    let domain ← decode
    let generation ← decode
    pure { domain, generation }

instance : Codec AuthorityVector where
  encode v := List.flatten [
    encode v.fabricEpoch, encode v.reservationGeneration, encode v.claimant,
    encode v.claimantGeneration, encode v.capacitySnapshot, encode v.capacityGeneration,
    encode v.policy, encode v.policyGeneration, encode v.pathGeneration, encode v.resources,
    encode v.failureDomains]
  decode := do
    let fabricEpoch ← decode
    let reservationGeneration ← decode
    let claimant ← decode
    let claimantGeneration ← decode
    let capacitySnapshot ← decode
    let capacityGeneration ← decode
    let policy ← decode
    let policyGeneration ← decode
    let pathGeneration ← decode
    let resources ← decode
    let failureDomains ← decode
    pure { fabricEpoch, reservationGeneration, claimant, claimantGeneration, capacitySnapshot,
           capacityGeneration, policy, policyGeneration, pathGeneration, resources,
           failureDomains }

instance : Codec Provenance where
  encode v := List.flatten [
    encode v.actor, encode v.publisher, encode v.publisherBoot, encode v.session, encode v.attempt,
    encode v.fabricEpoch, encode v.coordinatorBoot, encode v.recordedAt, encode v.sequence,
    encodeText v.reason]
  decode := do
    let actor ← decode
    let publisher ← decode
    let publisherBoot ← decode
    let session ← decode
    let attempt ← decode
    let fabricEpoch ← decode
    let coordinatorBoot ← decode
    let recordedAt ← decode
    let sequence ← decode
    let reason ← decodeText maxProvenanceReasonBytes
    pure { actor, publisher, publisherBoot, session, attempt, fabricEpoch, coordinatorBoot,
           recordedAt, sequence, reason }

/-! ## Capacity and paths -/

instance : Codec MaintenanceWindow where
  encode v := List.flatten [encode v.interval, encodeText v.reason]
  decode := do
    let interval ← decode
    let reason ← decodeText 256
    pure { interval, reason }

instance : Codec ResourceCapacity where
  encode v := List.flatten [
    encode v.resource, encode v.generation, encode v.reservableCapacity,
    encode v.protectedHeadroom, encode v.failureDomain, encode v.failureDomainGeneration,
    encode v.maintenance]
  decode := do
    let resource ← decode
    let generation ← decode
    let reservableCapacity ← decode
    let protectedHeadroom ← decode
    let failureDomain ← decode
    let failureDomainGeneration ← decode
    let maintenance ← decode
    pure { resource, generation, reservableCapacity, protectedHeadroom, failureDomain,
           failureDomainGeneration, maintenance }

instance : Codec CapacitySnapshot where
  encode v := List.flatten [
    encode v.id, encode v.generation, encode v.fabricEpoch, encode v.ingestedAt,
    encode v.complete, encode v.resources]
  decode := do
    let id ← decode
    let generation ← decode
    let fabricEpoch ← decode
    let ingestedAt ← decode
    let complete ← decode
    let resources ← decode
    pure { id, generation, fabricEpoch, ingestedAt, complete, resources }

instance : Codec PathAuthority where
  encode v := List.flatten [
    encode v.path, encode v.generation, encode v.components, encode v.issuedAt, encode v.retired]
  decode := do
    let path ← decode
    let generation ← decode
    let components ← decode
    let issuedAt ← decode
    let retired ← decode
    pure { path, generation, components, issuedAt, retired }

instance : Codec PathAuthoritySnapshot where
  encode v := List.flatten [
    encode v.id, encode v.generation, encode v.fabricEpoch, encode v.ingestedAt,
    encode v.complete, encode v.paths]
  decode := do
    let id ← decode
    let generation ← decode
    let fabricEpoch ← decode
    let ingestedAt ← decode
    let complete ← decode
    let paths ← decode
    pure { id, generation, fabricEpoch, ingestedAt, complete, paths }

/-! ## Policies -/

instance : Codec PolicyRecord where
  encode v := List.flatten [
    encode v.name, encode v.generation, encode v.ingestedAt, encode v.allowRecallGuaranteed,
    encode v.allowRecallProtected, encode v.allowPreemptionOnCommit, encode v.maxPreemptionVictims,
    encode v.defaultRecallGrace, encode v.allowOvercommit, encode v.overcommitAllowance,
    encode v.minimumReservationAmount, encode v.allowPastStart, encode v.maxFutureHorizon,
    encode v.maxExtraHeadroom, encode v.autoRevalidateOnGenerationChange, encode v.policyHeadroom,
    encode v.maxConflictSet, encode v.maxExplanationBytes, encode v.maxSeriesMembers,
    encode v.maxHoldTtl, encode v.maxHoldsPerSession, encode v.maxHoldBandwidth]
  decode := do
    let name ← decode
    let generation ← decode
    let ingestedAt ← decode
    let allowRecallGuaranteed ← decode
    let allowRecallProtected ← decode
    let allowPreemptionOnCommit ← decode
    let maxPreemptionVictims : Word 32 ← decode
    failIf (1024 < maxPreemptionVictims.val)
      (makeError .corrupt "policy victim bound out of range")
    let defaultRecallGrace ← decode
    let allowOvercommit ← decode
    let overcommitAllowance ← decode
    let minimumReservationAmount ← decode
    let allowPastStart ← decode
    let maxFutureHorizon ← decode
    let maxExtraHeadroom ← decode
    let autoRevalidateOnGenerationChange ← decode
    let policyHeadroom ← decode
    let maxConflictSet : Word 32 ← decode
    failIf (maxConflictSet.val = 0 || 4096 < maxConflictSet.val)
      (makeError .corrupt "policy conflict-set bound out of range")
    let maxExplanationBytes : Word 32 ← decode
    failIf (maxExplanationBytes.val < 128 || 65536 < maxExplanationBytes.val)
      (makeError .corrupt "policy explanation bound out of range")
    let maxSeriesMembers : Word 32 ← decode
    failIf (maxSeriesMembers.val = 0 || 4096 < maxSeriesMembers.val)
      (makeError .corrupt "policy series bound out of range")
    let maxHoldTtl ← decode
    let maxHoldsPerSession : Word 32 ← decode
    failIf (4096 < maxHoldsPerSession.val) (makeError .corrupt "policy hold bound out of range")
    let maxHoldBandwidth ← decode
    pure { name, generation, ingestedAt, allowRecallGuaranteed, allowRecallProtected,
           allowPreemptionOnCommit, maxPreemptionVictims, defaultRecallGrace, allowOvercommit,
           overcommitAllowance, minimumReservationAmount, allowPastStart, maxFutureHorizon,
           maxExtraHeadroom, autoRevalidateOnGenerationChange, policyHeadroom, maxConflictSet,
           maxExplanationBytes, maxSeriesMembers, maxHoldTtl, maxHoldsPerSession,
           maxHoldBandwidth }

/-! ## Reservations -/

instance : Codec RecurrenceSpec where
  encode v := List.flatten [encode v.enabled, encode v.period, encode v.count]
  decode := do
    let enabled ← decode
    let period ← decode
    let count : Word 32 ← decode
    failIf (4096 < count.val) (makeError .corrupt "recurrence count out of range")
    pure { enabled, period, count }

instance : Codec ReservationTerms where
  encode v := List.flatten [
    encode v.claimant, encode v.claimantGeneration, encode v.bindingKind, encode v.resources,
    encode v.path, encode v.requiredPathGeneration, encode v.interval, encode v.amount,
    encode v.minimumAmount, encode v.maximumAmount, encode v.guarantee, encode v.priority,
    encode v.preemptible, encode v.recallPermitted, encode v.grace, encode v.headroomRequirement,
    encode v.policy, encodeTexts v.policyLabels, encode v.recurrence]
  decode := do
    let claimant ← decode
    let claimantGeneration ← decode
    let bindingKind ← decode
    let resources ← decode
    let path ← decode
    let requiredPathGeneration ← decode
    let interval ← decode
    let amount ← decode
    let minimumAmount ← decode
    let maximumAmount ← decode
    let guarantee ← decode
    let priority : Word 32 ← decode
    failIf (maxPriority < priority.val) (makeError .corrupt "priority out of range")
    let preemptible ← decode
    let recallPermitted ← decode
    let grace ← decode
    let headroomRequirement ← decode
    let policy ← decode
    let policyLabels ← decodeTexts
    failIf (maxPolicyLabels < policyLabels.length)
      (makeError .resourceExhausted "too many policy labels")
    failIf (policyLabels.any fun label => maxLabelBytes < label.length)
      (makeError .corrupt "policy label exceeds its bound")
    let recurrence ← decode
    pure { claimant, claimantGeneration, bindingKind, resources, path, requiredPathGeneration,
           interval, amount, minimumAmount, maximumAmount, guarantee, priority, preemptible,
           recallPermitted, grace, headroomRequirement, policy, policyLabels, recurrence }

instance : Codec ReservationRecord where
  encode v := List.flatten [
    encode v.id, encode v.generation, encode v.seriesMember, encode v.series, encode v.seriesIndex,
    encode v.terms, encode v.authority, encode v.state, encode v.applicability,
    encode v.applicabilityReason, encode v.declaredAt, encode v.committedAt, encode v.activatedAt,
    encode v.stateChangedAt, encode v.recallEffectiveAt, encode v.recallGrace,
    encode v.terminatedAt, encode v.predecessor, encode v.predecessorGeneration,
    encodeText v.stateReason, encode v.lastProvenance, encode v.sequence]
  decode := do
    let id ← decode
    let generation ← decode
    let seriesMember ← decode
    let series ← decode
    let seriesIndex ← decode
    let terms ← decode
    let authority ← decode
    let state ← decode
    let applicability ← decode
    let applicabilityReason ← decode
    let declaredAt ← decode
    let committedAt ← decode
    let activatedAt ← decode
    let stateChangedAt ← decode
    let recallEffectiveAt ← decode
    let recallGrace ← decode
    let terminatedAt ← decode
    let predecessor ← decode
    let predecessorGeneration ← decode
    let stateReason ← decodeText maxProvenanceReasonBytes
    let lastProvenance ← decode
    let sequence ← decode
    pure { id, generation, seriesMember, series, seriesIndex, terms, authority, state,
           applicability, applicabilityReason, declaredAt, committedAt, activatedAt,
           stateChangedAt, recallEffectiveAt, recallGrace, terminatedAt, predecessor,
           predecessorGeneration, stateReason, lastProvenance, sequence }

instance : Codec SupersessionEdge where
  encode v := List.flatten [
    encode v.predecessor, encode v.predecessorGeneration, encode v.successor,
    encode v.successorGeneration, encode v.recordedAt, encode v.sequence, encodeText v.reason]
  decode := do
    let predecessor ← decode
    let predecessorGeneration ← decode
    let successor ← decode
    let successorGeneration ← decode
    let recordedAt ← decode
    let sequence ← decode
    let reason ← decodeText maxProvenanceReasonBytes
    pure { predecessor, predecessorGeneration, successor, successorGeneration, recordedAt,
           sequence, reason }

instance : Codec ReservationSeries where
  encode v := List.flatten [
    encode v.id, encode v.generation, encode v.claimant, encode v.claimantGeneration,
    encode v.spec, encode v.firstInterval, encode v.amount, encode v.state, encode v.createdAt,
    encode v.stateChangedAt, encode v.predecessorSeriesGeneration, encode v.predecessorGeneration,
    encode v.members, encode v.lastProvenance, encode v.sequence]
  decode := do
    let id ← decode
    let generation ← decode
    let claimant ← decode
    let claimantGeneration ← decode
    let spec ← decode
    let firstInterval ← decode
    let amount ← decode
    let state ← decode
    let createdAt ← decode
    let stateChangedAt ← decode
    let predecessorSeriesGeneration ← decode
    let predecessorGeneration ← decode
    let members ← decode
    let lastProvenance ← decode
    let sequence ← decode
    pure { id, generation, claimant, claimantGeneration, spec, firstInterval, amount, state,
           createdAt, stateChangedAt, predecessorSeriesGeneration, predecessorGeneration, members,
           lastProvenance, sequence }

/-! ## Mutations -/

instance : Codec AttemptMutation where
  encode v := List.flatten [
    encode v.attempt, encode v.fingerprint, encode v.outcome, encode v.reservation,
    encode v.generation, encode v.resultSequence, encode v.claimant, encode v.at']
  decode := do
    let attempt ← decode
    let fingerprint ← decode
    let outcome ← decode
    let reservation ← decode
    let generation ← decode
    let resultSequence ← decode
    let claimant ← decode
    let at' ← decode
    pure { attempt, fingerprint, outcome, reservation, generation, resultSequence, claimant, at' }

instance : Codec StateMutation where
  encode v := List.flatten [
    encode v.id, encode v.generation, encode v.fromState, encode v.toState, encode v.at',
    encodeText v.reason, encode v.provenance, encode v.recallEffectiveAt, encode v.attempt]
  decode := do
    let id ← decode
    let generation ← decode
    let fromState ← decode
    let toState ← decode
    let at' ← decode
    let reason ← decodeText maxProvenanceReasonBytes
    let provenance ← decode
    let recallEffectiveAt ← decode
    let attempt ← decode
    pure { id, generation, fromState, toState, at', reason, provenance, recallEffectiveAt,
           attempt }

instance : Codec ReservationMutation where
  encode v := List.flatten [
    encode v.record, encode v.series, encode v.members, encode v.edge, encode v.supersedeRecord,
    encode v.companions, encode v.attempt]
  decode := do
    let record ← decode
    let series ← decode
    let members ← decode
    let edge ← decode
    let supersedeRecord ← decode
    let companions ← decode
    let attempt ← decode
    pure { record, series, members, edge, supersedeRecord, companions, attempt }

instance : Codec ApplicabilityMutation where
  encode v := List.flatten [
    encode v.id, encode v.generation, encode v.applicability, encode v.reason, encode v.at']
  decode := do
    let id ← decode
    let generation ← decode
    let applicability ← decode
    let reason ← decode
    let at' ← decode
    pure { id, generation, applicability, reason, at' }

instance : Codec EpochMutation where
  encode v := List.flatten [encode v.epoch, encode v.coordinatorBoot, encode v.at']
  decode := do
    let epoch ← decode
    let coordinatorBoot ← decode
    let at' ← decode
    pure { epoch, coordinatorBoot, at' }

instance : Codec FenceMutation where
  encode v := List.flatten [
    encode v.claimant, encode v.claimantGeneration, encode v.boot, encode v.session, encode v.at',
    encodeText v.reason, encode v.claimantWide]
  decode := do
    let claimant ← decode
    let claimantGeneration ← decode
    let boot ← decode
    let session ← decode
    let at' ← decode
    let reason ← decodeText maxProvenanceReasonBytes
    let claimantWide ← decode
    pure { claimant, claimantGeneration, boot, session, at', reason, claimantWide }

instance : Codec ClaimantMutation where
  encode v := List.flatten [encode v.claimant, encode v.generation, encode v.at']
  decode := do
    let claimant ← decode
    let generation ← decode
    let at' ← decode
    pure { claimant, generation, at' }

instance : Codec OvercommitMutation where
  encode v := List.flatten [
    encode v.resource, encode v.generation, encode v.committedPeak, encode v.ceiling,
    encode v.window, encode v.at', encode v.resolved]
  decode := do
    let resource ← decode
    let generation ← decode
    let committedPeak ← decode
    let ceiling ← decode
    let window ← decode
    let at' ← decode
    let resolved ← decode
    pure { resource, generation, committedPeak, ceiling, window, at', resolved }

instance : Codec RetireMutation where
  encode v := List.flatten [encode v.ids, encode v.generations, encode v.at']
  decode := do
    let ids ← decode
    let generations ← decode
    failIf (ids.length != generations.length)
      (makeError .corrupt "retire mutation identity/generation arrays are not parallel")
    let at' ← decode
    pure { ids, generations, at' }

instance : Codec CapacityMutation where
  encode v := List.flatten [encode v.snapshot, encode v.withdrawals]
  decode := do
    let snapshot ← decode
    let withdrawals ← decode
    pure { snapshot, withdrawals }

/-! ## The journal envelope -/

/-- The payload of a durable record after its kind: `encode(Writer&, const DurableRecord&)`. -/
def encodeBody : DurableRecord → Text
  | .fabricBoot epoch => encode epoch
  | .capacitySnapshot capacity => encode capacity
  | .pathSnapshot path => encode path
  | .policyRecord policy => encode policy
  | .reservationCommit reservation => encode reservation
  | .reservationAmend reservation => encode reservation
  | .reservationSeries reservation => encode reservation
  | .reservationState state => encode state
  | .reservationApplicability applicability => encode applicability
  | .attemptOutcome attempt => encode attempt
  | .overcommit overcommit => encode overcommit
  | .retire retire => encode retire
  | .fence fence => encode fence
  | .claimantRegistration claimant => encode claimant

/-- The payload of a durable record of a given kind: `decode(Reader&, DurableRecord&)`. -/
def decodeBody : RecordKind → Reader Error DurableRecord
  | .fabricBoot => do pure (.fabricBoot (← decode))
  | .capacitySnapshot => do pure (.capacitySnapshot (← decode))
  | .pathSnapshot => do pure (.pathSnapshot (← decode))
  | .policyRecord => do pure (.policyRecord (← decode))
  | .reservationCommit => do pure (.reservationCommit (← decode))
  | .reservationAmend => do pure (.reservationAmend (← decode))
  | .reservationSeries => do pure (.reservationSeries (← decode))
  | .reservationState => do pure (.reservationState (← decode))
  | .reservationApplicability => do pure (.reservationApplicability (← decode))
  | .attemptOutcome => do pure (.attemptOutcome (← decode))
  | .overcommit => do pure (.overcommit (← decode))
  | .retire => do pure (.retire (← decode))
  | .fence => do pure (.fence (← decode))
  | .claimantRegistration => do pure (.claimantRegistration (← decode))

instance : Codec DurableRecord where
  encode v := List.flatten [encode v.kind, encodeBody v]
  decode := do
    let kind ← decode
    decodeBody kind

/-- `encode_record`. -/
def encodeRecord (record : DurableRecord) : Text :=
  encode durableFormatVersion ++ encode record

/-- The reader part of `decode_record`. -/
def decodeEnvelope (kind : RecordKind) : Reader Error DurableRecord := do
  let version : Word 16 ← decode
  failIf (version != durableFormatVersion)
    (makeError .unsupported "durable record format version is not supported")
  let record ← decode
  failIf (record.kind != kind)
    (makeError .corrupt "durable record kind does not match its container")
  pure record

/-- A whole payload is read, with nothing left over. -/
def decodeAll {α : Type} (d : Reader Error α) (trailing : String) (payload : Text) : Result α :=
  match d.run payload with
  | .error e => .error e
  | .ok (a, rest) => if rest.isEmpty then .ok a else .error (makeError .corrupt trailing)

/-- `decode_record`. -/
def decodeRecord (payload : Text) (kind : RecordKind) : Result DurableRecord :=
  decodeAll (decodeEnvelope kind) "durable record has trailing bytes" payload

/-! ## Snapshots -/

/-- `SnapshotCapacityEntry`. -/
instance : Codec CapacityEntry where
  encode v := List.flatten [
    encode v.capacity, encode v.snapshot, encode v.ingestedAt, encode v.withdrawn,
    encode v.withdrawnAt, encode v.priorGenerations]
  decode := do
    let capacity ← decode
    let snapshot ← decode
    let ingestedAt ← decode
    let withdrawn ← decode
    let withdrawnAt ← decode
    let priorGenerations ← decode
    pure { capacity, snapshot, ingestedAt, withdrawn, withdrawnAt, priorGenerations }

/-- `SnapshotPathEntry`. -/
instance : Codec PathEntry where
  encode v := List.flatten [
    encode v.path, encode v.snapshot, encode v.ingestedAt, encode v.retired,
    encode v.priorGenerations]
  decode := do
    let path ← decode
    let snapshot ← decode
    let ingestedAt ← decode
    let retired ← decode
    let priorGenerations ← decode
    pure { path, snapshot, ingestedAt, retired, priorGenerations }

/-- `SnapshotPolicyEntry`. -/
instance : Codec PolicyEntry where
  encode v := List.flatten [encode v.record, encode v.ingestedAt, encode v.priorGenerations]
  decode := do
    let record ← decode
    let ingestedAt ← decode
    let priorGenerations ← decode
    pure { record, ingestedAt, priorGenerations }

instance : Codec SnapshotState where
  encode v := List.flatten [
    encode v.epoch, encode v.coordinatorBoot, encode v.sequence, encode v.capacity, encode v.paths,
    encode v.policies, encode v.reservations, encode v.series, encode v.edges, encode v.attempts,
    encode v.fences, encode v.claimants, encode v.overcommits, encode v.retired]
  decode := do
    let epoch ← decode
    let coordinatorBoot ← decode
    let sequence ← decode
    let capacity ← decode
    let paths ← decode
    let policies ← decode
    let reservations ← decode
    let series ← decode
    let edges ← decode
    let attempts ← decode
    let fences ← decode
    let claimants ← decode
    let overcommits ← decode
    let retired ← decode
    pure { epoch, coordinatorBoot, sequence, capacity, paths, policies, reservations, series,
           edges, attempts, fences, claimants, overcommits, retired }

end Brf
