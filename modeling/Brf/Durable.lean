import Brf.Reservation

/-!
# Durable records

Model of the durable types of `include/brf/codec.hpp`, of `RecordKind` (`include/brf/store.hpp`)
and of `AdmissionOutcome` (`include/brf/outcome.hpp`).

* `DurableRecord` is the source's union carrier: the kind selects the one meaningful member, so it is
  a tagged union here, with `RecordKind` recovered by `DurableRecord.kind`.
* A `has_x` flag followed by `x` is an `Option`.
* `SnapshotState` is the complete durable state that compaction writes.
-/

namespace Brf

open Brf.Lib

/-- `AdmissionOutcome`. -/
inductive AdmissionOutcome where
  | committable | insufficientCapacity | policyRejected | staleResource | stalePathAuthority
  | conflictingReservation | invalidInterval | claimantFenced | unsupported | emergencyOvercommit
  | idempotentReplay | staleEpoch | invalidRequest | generationMismatch | resourceExhausted
  | conflict
  deriving DecidableEq, Repr, Inhabited

instance : Enumeration AdmissionOutcome where
  all := [.committable, .insufficientCapacity, .policyRejected, .staleResource,
    .stalePathAuthority, .conflictingReservation, .invalidInterval, .claimantFenced, .unsupported,
    .emergencyOvercommit, .idempotentReplay, .staleEpoch, .invalidRequest, .generationMismatch,
    .resourceExhausted, .conflict]
  complete x := by cases x <;> decide

/-- `RecordKind`; the numbers of the source start at 1. -/
inductive RecordKind where
  | fabricBoot | capacitySnapshot | pathSnapshot | policyRecord | reservationCommit
  | reservationAmend | reservationSeries | reservationState | reservationApplicability
  | attemptOutcome | overcommit | retire | fence | claimantRegistration
  deriving DecidableEq, Repr, Inhabited

instance : Enumeration RecordKind where
  all := [.fabricBoot, .capacitySnapshot, .pathSnapshot, .policyRecord, .reservationCommit,
    .reservationAmend, .reservationSeries, .reservationState, .reservationApplicability,
    .attemptOutcome, .overcommit, .retire, .fence, .claimantRegistration]
  complete x := by cases x <;> decide

/-! ## Mutations -/

/-- `AttemptMutation`: the idempotency record of one attempt. -/
structure AttemptMutation where
  attempt : AttemptId := 0
  fingerprint : Identity128 := 0
  outcome : AdmissionOutcome := .invalidRequest
  reservation : ReservationId := 0
  generation : ReservationGeneration := 0
  resultSequence : DurableSequence := 0
  claimant : Identity128 := 0
  at' : Timestamp := 0
  deriving DecidableEq, Repr, Inhabited

/-- `StateMutation`: one lifecycle transition. -/
structure StateMutation where
  id : ReservationId := 0
  generation : ReservationGeneration := 0
  fromState : ReservationState := .declared
  toState : ReservationState := .declared
  at' : Timestamp := 0
  reason : Text := []
  provenance : Provenance := {}
  recallEffectiveAt : Timestamp := 0
  attempt : Option AttemptMutation := none
  deriving DecidableEq, Repr, Inhabited

/-- `ReservationMutation`: everything one commit or amendment makes durable at once. -/
structure ReservationMutation where
  record : ReservationRecord := {}
  series : Option ReservationSeries := none
  members : List ReservationRecord := []
  edge : Option SupersessionEdge := none
  /-- The record replaces a prior generation. -/
  supersedeRecord : Bool := false
  /-- Transitions committed atomically with this reservation: recalled preemption victims. -/
  companions : List StateMutation := []
  attempt : Option AttemptMutation := none
  deriving DecidableEq, Repr, Inhabited

/-- `ApplicabilityMutation`. -/
structure ApplicabilityMutation where
  id : ReservationId := 0
  generation : ReservationGeneration := 0
  applicability : Applicability := .current
  reason : ApplicabilityReason := .current
  at' : Timestamp := 0
  deriving DecidableEq, Repr, Inhabited

/-- `EpochMutation`. -/
structure EpochMutation where
  epoch : FabricEpoch := 0
  coordinatorBoot : Identity128 := 0
  at' : Timestamp := 0
  deriving DecidableEq, Repr, Inhabited

/-- `FenceMutation`. -/
structure FenceMutation where
  claimant : ClaimantId := 0
  claimantGeneration : ClaimantGeneration := 0
  boot : PublisherBootId := 0
  session : SessionId := 0
  at' : Timestamp := 0
  reason : Text := []
  claimantWide : Bool := false
  deriving DecidableEq, Repr, Inhabited

/-- `ClaimantMutation`. -/
structure ClaimantMutation where
  claimant : ClaimantId := 0
  generation : ClaimantGeneration := 0
  at' : Timestamp := 0
  deriving DecidableEq, Repr, Inhabited

/-- `OvercommitMutation`. -/
structure OvercommitMutation where
  resource : ResourceName := default
  generation : ResourceGeneration := 0
  committedPeak : Bandwidth := 0
  ceiling : Bandwidth := 0
  window : Interval := {}
  at' : Timestamp := 0
  resolved : Bool := false
  deriving DecidableEq, Repr, Inhabited

/-- `RetireMutation`: parallel arrays of identities and generations. -/
structure RetireMutation where
  ids : List ReservationId := []
  generations : List ReservationGeneration := []
  at' : Timestamp := 0
  deriving DecidableEq, Repr, Inhabited

/-- `CapacityMutation`. -/
structure CapacityMutation where
  snapshot : CapacitySnapshot := {}
  withdrawals : List ResourceName := []
  deriving DecidableEq, Repr, Inhabited

/-- `DurableRecord`: exactly one member is meaningful, selected by the kind. -/
inductive DurableRecord where
  | fabricBoot (epoch : EpochMutation)
  | capacitySnapshot (capacity : CapacityMutation)
  | pathSnapshot (path : PathAuthoritySnapshot)
  | policyRecord (policy : PolicyRecord)
  | reservationCommit (reservation : ReservationMutation)
  | reservationAmend (reservation : ReservationMutation)
  | reservationSeries (reservation : ReservationMutation)
  | reservationState (state : StateMutation)
  | reservationApplicability (applicability : ApplicabilityMutation)
  | attemptOutcome (attempt : AttemptMutation)
  | overcommit (overcommit : OvercommitMutation)
  | retire (retire : RetireMutation)
  | fence (fence : FenceMutation)
  | claimantRegistration (claimant : ClaimantMutation)
  deriving DecidableEq, Repr, Inhabited

/-- The kind a record is stored under. -/
def DurableRecord.kind : DurableRecord → RecordKind
  | fabricBoot _ => .fabricBoot
  | capacitySnapshot _ => .capacitySnapshot
  | pathSnapshot _ => .pathSnapshot
  | policyRecord _ => .policyRecord
  | reservationCommit _ => .reservationCommit
  | reservationAmend _ => .reservationAmend
  | reservationSeries _ => .reservationSeries
  | reservationState _ => .reservationState
  | reservationApplicability _ => .reservationApplicability
  | attemptOutcome _ => .attemptOutcome
  | overcommit _ => .overcommit
  | retire _ => .retire
  | fence _ => .fence
  | claimantRegistration _ => .claimantRegistration

/-! ## Snapshots -/

/-- `SnapshotState`: a pure function of the record stream that produced it. The entries of the three
ledgers are stored as they are (`SnapshotCapacityEntry` and its siblings have the same fields). -/
structure SnapshotState where
  epoch : FabricEpoch := 0
  coordinatorBoot : Identity128 := 0
  sequence : DurableSequence := 0
  capacity : List CapacityEntry := []
  paths : List PathEntry := []
  policies : List PolicyEntry := []
  reservations : List ReservationRecord := []
  series : List ReservationSeries := []
  edges : List SupersessionEdge := []
  attempts : List AttemptMutation := []
  fences : List FenceMutation := []
  claimants : List ClaimantMutation := []
  overcommits : List OvercommitMutation := []
  retired : List ReservationRecord := []
  deriving DecidableEq, Repr, Inhabited

end Brf
