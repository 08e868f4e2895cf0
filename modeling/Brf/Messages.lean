import Brf.Admission
import Brf.Protocol

/-!
# The requests of the protocol

Model of the request payloads of `src/protocol.cpp`, with the codec of the request context of
`src/codec.cpp`.

* One structure and one `Codec` for each payload, field by field in the order of the source. A payload
  type may serve several message types: a release and a revocation name a generation alike.
* `Message` is a request with the type of its frame, and `Message.reader` the decoder that the server
  picks for a type. A type that no request has is not read.

Out of scope: the payloads of the responses.
-/

namespace Brf

open Brf.Lib

/-! ## Payloads -/

instance : Codec RequestContext where
  encode v := List.flatten [
    encode v.actor, encode v.publisher, encode v.publisherBoot, encode v.session, encode v.attempt,
    encode v.claimant, encode v.claimantGeneration, encode v.assertedEpoch, encodeText v.reason]
  decode := do
    let actor ← decode
    let publisher ← decode
    let publisherBoot ← decode
    let session ← decode
    let attempt ← decode
    let claimant ← decode
    let claimantGeneration ← decode
    let assertedEpoch ← decode
    let reason ← decodeText maxProvenanceReasonBytes
    pure { actor, publisher, publisherBoot, session, attempt, claimant, claimantGeneration,
           assertedEpoch, reason }

/-- The list of holds to consume has a bound of its own. -/
def decodeHolds : Reader Error (List HoldId) := do
  let count : Word 32 ← decode
  failIf (64 < count.val)
    (makeError .resourceExhausted "too many holds named for consumption")
  readN decode count.val

/-- `HelloRequest`. -/
structure HelloRequest where
  protocolVersion : Word 16 := wireProtocolVersion
  client : Identity128 := 0
  clientName : Text := []
  deriving DecidableEq, Repr, Inhabited

instance : Codec HelloRequest where
  encode v := List.flatten [encode v.protocolVersion, encode v.client, encodeText v.clientName]
  decode := do
    let protocolVersion ← decode
    let client ← decode
    let clientName ← decodeText 128
    pure { protocolVersion, client, clientName }

/-- `CapacityIngestRequest`. -/
structure CapacityIngestRequest where
  context : RequestContext := {}
  snapshot : CapacitySnapshot := {}
  withdrawals : List ResourceName := []
  deriving DecidableEq, Repr, Inhabited

instance : Codec CapacityIngestRequest where
  encode v := List.flatten [encode v.context, encode v.snapshot, encode v.withdrawals]
  decode := do
    let context ← decode
    let snapshot ← decode
    let withdrawals ← decode
    pure { context, snapshot, withdrawals }

/-- `PathIngestRequest`. -/
structure PathIngestRequest where
  context : RequestContext := {}
  snapshot : PathAuthoritySnapshot := {}
  deriving DecidableEq, Repr, Inhabited

instance : Codec PathIngestRequest where
  encode v := List.flatten [encode v.context, encode v.snapshot]
  decode := do
    let context ← decode
    let snapshot ← decode
    pure { context, snapshot }

/-- `PolicyIngestRequest`. -/
structure PolicyIngestRequest where
  context : RequestContext := {}
  record : PolicyRecord := {}
  deriving DecidableEq, Repr, Inhabited

instance : Codec PolicyIngestRequest where
  encode v := List.flatten [encode v.context, encode v.record]
  decode := do
    let context ← decode
    let record ← decode
    pure { context, record }

/-- `ClaimantRegistrationRequest`. -/
structure ClaimantRegistrationRequest where
  context : RequestContext := {}
  claimant : ClaimantId := 0
  generation : ClaimantGeneration := 0
  deriving DecidableEq, Repr, Inhabited

instance : Codec ClaimantRegistrationRequest where
  encode v := List.flatten [encode v.context, encode v.claimant, encode v.generation]
  decode := do
    let context ← decode
    let claimant ← decode
    let generation ← decode
    pure { context, claimant, generation }

/-- `FenceRequest`. -/
structure FenceRequest where
  context : RequestContext := {}
  claimant : ClaimantId := 0
  claimantGeneration : ClaimantGeneration := 0
  boot : PublisherBootId := 0
  session : SessionId := 0
  claimantWide : Bool := false
  deriving DecidableEq, Repr, Inhabited

instance : Codec FenceRequest where
  encode v := List.flatten [
    encode v.context, encode v.claimant, encode v.claimantGeneration, encode v.boot,
    encode v.session, encode v.claimantWide]
  decode := do
    let context ← decode
    let claimant ← decode
    let claimantGeneration ← decode
    let boot ← decode
    let session ← decode
    let claimantWide ← decode
    pure { context, claimant, claimantGeneration, boot, session, claimantWide }

/-- `ReservationCreateRequest`. -/
structure ReservationCreateRequest where
  context : RequestContext := {}
  terms : ReservationTerms := {}
  requestedId : ReservationId := 0
  dryRun : Bool := false
  consumeHolds : List HoldId := []
  deriving DecidableEq, Repr, Inhabited

instance : Codec ReservationCreateRequest where
  encode v := List.flatten [
    encode v.context, encode v.terms, encode v.requestedId, encode v.dryRun, encode v.consumeHolds]
  decode := do
    let context ← decode
    let terms ← decode
    let requestedId ← decode
    let dryRun ← decode
    let consumeHolds ← decodeHolds
    pure { context, terms, requestedId, dryRun, consumeHolds }

/-- `AmendmentRequest`. -/
structure AmendmentRequest where
  context : RequestContext := {}
  target : ReservationId := 0
  targetGeneration : ReservationGeneration := 0
  terms : ReservationTerms := {}
  dryRun : Bool := false
  deriving DecidableEq, Repr, Inhabited

instance : Codec AmendmentRequest where
  encode v := List.flatten [
    encode v.context, encode v.target, encode v.targetGeneration, encode v.terms, encode v.dryRun]
  decode := do
    let context ← decode
    let target ← decode
    let targetGeneration ← decode
    let terms ← decode
    let dryRun ← decode
    pure { context, target, targetGeneration, terms, dryRun }

/-- `ReservationRefRequest`. -/
structure ReservationRefRequest where
  context : RequestContext := {}
  id : ReservationId := 0
  generation : ReservationGeneration := 0
  deriving DecidableEq, Repr, Inhabited

instance : Codec ReservationRefRequest where
  encode v := List.flatten [encode v.context, encode v.id, encode v.generation]
  decode := do
    let context ← decode
    let id ← decode
    let generation ← decode
    pure { context, id, generation }

/-- `RecallRequest`. -/
structure RecallRequest where
  context : RequestContext := {}
  id : ReservationId := 0
  generation : ReservationGeneration := 0
  effectiveAt : Timestamp := 0
  grace : Duration := 0
  force : Bool := false
  deriving DecidableEq, Repr, Inhabited

instance : Codec RecallRequest where
  encode v := List.flatten [
    encode v.context, encode v.id, encode v.generation, encode v.effectiveAt, encode v.grace,
    encode v.force]
  decode := do
    let context ← decode
    let id ← decode
    let generation ← decode
    let effectiveAt ← decode
    let grace ← decode
    let force ← decode
    pure { context, id, generation, effectiveAt, grace, force }

/-- `RevalidateRequest`. -/
structure RevalidateRequest where
  context : RequestContext := {}
  id : ReservationId := 0
  generation : ReservationGeneration := 0
  markStale : Bool := false
  deriving DecidableEq, Repr, Inhabited

instance : Codec RevalidateRequest where
  encode v := List.flatten [encode v.context, encode v.id, encode v.generation, encode v.markStale]
  decode := do
    let context ← decode
    let id ← decode
    let generation ← decode
    let markStale ← decode
    pure { context, id, generation, markStale }

/-- `AttemptRequest`. -/
structure AttemptRequest where
  context : RequestContext := {}
  attempt : AttemptId := 0
  deriving DecidableEq, Repr, Inhabited

instance : Codec AttemptRequest where
  encode v := List.flatten [encode v.context, encode v.attempt]
  decode := do
    let context ← decode
    let attempt ← decode
    pure { context, attempt }

/-- `LifecycleReconcileRequest`. -/
structure LifecycleReconcileRequest where
  context : RequestContext := {}
  fenceDeadHolds : Bool := true
  deriving DecidableEq, Repr, Inhabited

instance : Codec LifecycleReconcileRequest where
  encode v := List.flatten [encode v.context, encode v.fenceDeadHolds]
  decode := do
    let context ← decode
    let fenceDeadHolds ← decode
    pure { context, fenceDeadHolds }

/-- `QueryRequest`. -/
structure QueryRequest where
  context : RequestContext := {}
  resource : ResourceName := default
  window : Interval := {}
  amount : Bandwidth := 0
  includeTerminal : Bool := false
  deriving DecidableEq, Repr, Inhabited

instance : Codec QueryRequest where
  encode v := List.flatten [
    encode v.context, encode v.resource, encode v.window, encode v.amount, encode v.includeTerminal]
  decode := do
    let context ← decode
    let resource ← decode
    let window ← decode
    let amount ← decode
    let includeTerminal ← decode
    pure { context, resource, window, amount, includeTerminal }

/-- `ClaimantQueryRequest`. -/
structure ClaimantQueryRequest where
  context : RequestContext := {}
  claimant : ClaimantId := 0
  includeTerminal : Bool := false
  deriving DecidableEq, Repr, Inhabited

instance : Codec ClaimantQueryRequest where
  encode v := List.flatten [encode v.context, encode v.claimant, encode v.includeTerminal]
  decode := do
    let context ← decode
    let claimant ← decode
    let includeTerminal ← decode
    pure { context, claimant, includeTerminal }

/-- `LineageRequest`. -/
structure LineageRequest where
  context : RequestContext := {}
  id : ReservationId := 0
  generation : ReservationGeneration := 0
  deriving DecidableEq, Repr, Inhabited

instance : Codec LineageRequest where
  encode v := List.flatten [encode v.context, encode v.id, encode v.generation]
  decode := do
    let context ← decode
    let id ← decode
    let generation ← decode
    pure { context, id, generation }

/-- `HoldAcquireRequest`. -/
structure HoldAcquireRequest where
  context : RequestContext := {}
  terms : ReservationTerms := {}
  expiresAt : Timestamp := 0
  deriving DecidableEq, Repr, Inhabited

instance : Codec HoldAcquireRequest where
  encode v := List.flatten [encode v.context, encode v.terms, encode v.expiresAt]
  decode := do
    let context ← decode
    let terms ← decode
    let expiresAt ← decode
    pure { context, terms, expiresAt }

/-- `HoldReleaseRequest`. -/
structure HoldReleaseRequest where
  context : RequestContext := {}
  id : HoldId := 0
  generation : HoldGeneration := 0
  deriving DecidableEq, Repr, Inhabited

instance : Codec HoldReleaseRequest where
  encode v := List.flatten [encode v.context, encode v.id, encode v.generation]
  decode := do
    let context ← decode
    let id ← decode
    let generation ← decode
    pure { context, id, generation }
/-! ## Messages -/

/-- The member with a number. -/
def MessageType.ofCode? (code : Word 16) : Option MessageType :=
  (Enumeration.all (α := MessageType)).find? fun type => type.code = code

/-- `to_string(MessageType)` of a declared member. -/
def MessageType.spelling : MessageType → Text
  | .hello => ascii "HELLO"
  | .helloAck => ascii "HELLO_ACK"
  | .ingestCapacity => ascii "INGEST_CAPACITY"
  | .ingestPathAuthority => ascii "INGEST_PATH_AUTHORITY"
  | .ingestPolicy => ascii "INGEST_POLICY"
  | .registerClaimant => ascii "REGISTER_CLAIMANT"
  | .fence => ascii "FENCE"
  | .validate => ascii "VALIDATE"
  | .commit => ascii "COMMIT"
  | .amend => ascii "AMEND"
  | .release => ascii "RELEASE"
  | .recall => ascii "RECALL"
  | .revoke => ascii "REVOKE"
  | .revalidate => ascii "REVALIDATE"
  | .reconcileAttempt => ascii "RECONCILE_ATTEMPT"
  | .reconcileLifecycle => ascii "RECONCILE_LIFECYCLE"
  | .getReservation => ascii "GET_RESERVATION"
  | .queryClaimant => ascii "QUERY_CLAIMANT"
  | .queryResource => ascii "QUERY_RESOURCE"
  | .queryCommitted => ascii "QUERY_COMMITTED"
  | .queryRemaining => ascii "QUERY_REMAINING"
  | .explainConflicts => ascii "EXPLAIN_CONFLICTS"
  | .timeline => ascii "TIMELINE"
  | .lineage => ascii "LINEAGE"
  | .overcommitReport => ascii "OVERCOMMIT_REPORT"
  | .stats => ascii "STATS"
  | .durableReplay => ascii "DURABLE_REPLAY"
  | .holdAcquire => ascii "HOLD_ACQUIRE"
  | .holdRelease => ascii "HOLD_RELEASE"
  | .holdQuery => ascii "HOLD_QUERY"
  | .sessionRelease => ascii "SESSION_RELEASE"
  | .shutdown => ascii "SHUTDOWN"
  | .ok => ascii "OK"
  | .error => ascii "ERROR"

/-- A request, by the type of its frame. -/
inductive Message where
  | hello (request : HelloRequest)
  | ingestCapacity (request : CapacityIngestRequest)
  | ingestPathAuthority (request : PathIngestRequest)
  | ingestPolicy (request : PolicyIngestRequest)
  | registerClaimant (request : ClaimantRegistrationRequest)
  | fence (request : FenceRequest)
  | validate (request : ReservationCreateRequest)
  | commit (request : ReservationCreateRequest)
  | amend (request : AmendmentRequest)
  | release (request : ReservationRefRequest)
  | revoke (request : ReservationRefRequest)
  | «recall» (request : RecallRequest)
  | revalidate (request : RevalidateRequest)
  | reconcileAttempt (request : AttemptRequest)
  | reconcileLifecycle (request : LifecycleReconcileRequest)
  | getReservation (request : ReservationRefRequest)
  | queryClaimant (request : ClaimantQueryRequest)
  | queryResource (request : QueryRequest)
  | queryCommitted (request : QueryRequest)
  | queryRemaining (request : QueryRequest)
  | explainConflicts (request : ReservationCreateRequest)
  | timeline (request : QueryRequest)
  | lineage (request : LineageRequest)
  | overcommitReport
  | stats
  | durableReplay
  | holdAcquire (request : HoldAcquireRequest)
  | holdRelease (request : HoldReleaseRequest)
  | holdQuery
  | sessionRelease (request : LifecycleReconcileRequest)
  deriving DecidableEq, Repr

namespace Message

/-- The type of the frame. -/
def type : Message → MessageType
  | hello _ => .hello
  | ingestCapacity _ => .ingestCapacity
  | ingestPathAuthority _ => .ingestPathAuthority
  | ingestPolicy _ => .ingestPolicy
  | registerClaimant _ => .registerClaimant
  | fence _ => .fence
  | validate _ => .validate
  | commit _ => .commit
  | amend _ => .amend
  | release _ => .release
  | revoke _ => .revoke
  | «recall» _ => .recall
  | revalidate _ => .revalidate
  | reconcileAttempt _ => .reconcileAttempt
  | reconcileLifecycle _ => .reconcileLifecycle
  | getReservation _ => .getReservation
  | queryClaimant _ => .queryClaimant
  | queryResource _ => .queryResource
  | queryCommitted _ => .queryCommitted
  | queryRemaining _ => .queryRemaining
  | explainConflicts _ => .explainConflicts
  | timeline _ => .timeline
  | lineage _ => .lineage
  | overcommitReport => .overcommitReport
  | stats => .stats
  | durableReplay => .durableReplay
  | holdAcquire _ => .holdAcquire
  | holdRelease _ => .holdRelease
  | holdQuery => .holdQuery
  | sessionRelease _ => .sessionRelease

/-- The payload of the frame. -/
def payload : Message → Text
  | hello request => encode request
  | ingestCapacity request => encode request
  | ingestPathAuthority request => encode request
  | ingestPolicy request => encode request
  | registerClaimant request => encode request
  | fence request => encode request
  | validate request | commit request | explainConflicts request => encode request
  | amend request => encode request
  | release request | revoke request | getReservation request => encode request
  | «recall» request => encode request
  | revalidate request => encode request
  | reconcileAttempt request => encode request
  | reconcileLifecycle request | sessionRelease request => encode request
  | queryClaimant request => encode request
  | queryResource request | queryCommitted request | queryRemaining request
  | timeline request => encode request
  | lineage request => encode request
  | holdAcquire request => encode request
  | holdRelease request => encode request
  | overcommitReport | stats | durableReplay | holdQuery => []

/-- The decoder that `Session::dispatch` calls for a type. -/
def reader : MessageType → Option (Reader Error Message)
  | .hello => some do pure (hello (← decode))
  | .ingestCapacity => some do pure (ingestCapacity (← decode))
  | .ingestPathAuthority => some do pure (ingestPathAuthority (← decode))
  | .ingestPolicy => some do pure (ingestPolicy (← decode))
  | .registerClaimant => some do pure (registerClaimant (← decode))
  | .fence => some do pure (fence (← decode))
  | .validate => some do pure (validate (← decode))
  | .commit => some do pure (commit (← decode))
  | .amend => some do pure (amend (← decode))
  | .release => some do pure (release (← decode))
  | .revoke => some do pure (revoke (← decode))
  | .recall => some do pure («recall» (← decode))
  | .revalidate => some do pure (revalidate (← decode))
  | .reconcileAttempt => some do pure (reconcileAttempt (← decode))
  | .reconcileLifecycle => some do pure (reconcileLifecycle (← decode))
  | .getReservation => some do pure (getReservation (← decode))
  | .queryClaimant => some do pure (queryClaimant (← decode))
  | .queryResource => some do pure (queryResource (← decode))
  | .queryCommitted => some do pure (queryCommitted (← decode))
  | .queryRemaining => some do pure (queryRemaining (← decode))
  | .explainConflicts => some do pure (explainConflicts (← decode))
  | .timeline => some do pure (timeline (← decode))
  | .lineage => some do pure (lineage (← decode))
  | .overcommitReport => some (pure overcommitReport)
  | .stats => some (pure stats)
  | .durableReplay => some (pure durableReplay)
  | .holdAcquire => some do pure (holdAcquire (← decode))
  | .holdRelease => some do pure (holdRelease (← decode))
  | .holdQuery => some (pure holdQuery)
  | .sessionRelease => some do pure (sessionRelease (← decode))
  | .helloAck | .shutdown | .ok | .error => none

end Message

/-- The decoding part of `Session::dispatch`: what follows the request is ignored. -/
def decodeMessage (code : Word 16) (payload : Text) : Result Message :=
  match MessageType.ofCode? code with
  | none => throw ⟨.unsupported, ascii "unsupported message type: UNKNOWN"⟩
  | some type =>
    match Message.reader type with
    | none => throw ⟨.unsupported, ascii "unsupported message type: " ++ type.spelling⟩
    | some reader => reader.run' payload

end Brf
