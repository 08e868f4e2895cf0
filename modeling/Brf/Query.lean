import Brf.Operations

/-!
# Queries

Model of the queries of `src/coordinator_query.cpp` that look at records and capacity. Each of them
reconciles the clock first, so a query changes the state as a reconciliation does.

Out of scope: `query_lineage`, `overcommit_report` and the accessors, which change nothing else, and the
audit.
-/

namespace Brf

open Brf.Lib

/-- `kMaxQueryResults`. -/
def maxQueryResults : Nat := 4096

/-- `RemainingCapacity`. -/
structure RemainingCapacity where
  resource : ResourceName := default
  generation : ResourceGeneration := 0
  window : Interval := {}
  committableCeiling : Bandwidth := 0
  committedPeak : Bandwidth := 0
  holdsPeak : Bandwidth := 0
  remaining : Bandwidth := 0
  maintenanceCovers : Bool := false
  overcommitEmergency : Bool := false
  deriving DecidableEq, Repr, Inhabited

/-- `CapacityTimeline`. -/
structure CapacityTimeline where
  resource : ResourceName := default
  window : Interval := {}
  points : List ChangePoint := []
  truncated : Bool := false
  deriving DecidableEq, Repr, Inhabited

namespace Coordinator

/-- `get_reservation`: the named or current generation, or else the archived record. -/
def getReservation (now : Timestamp) (id : ReservationId) (generation : ReservationGeneration) :
    Method ReservationRecord := do
  reconcile now
  let c ← get
  let stored := if generation.val = 0 then c.currentRecord id else c.findRecord id generation
  match stored.or c.retired[id]? with
  | some r => pure r
  | none => throw (makeError .notFound "reservation is not known to this coordinator")

/-- `query_claimant`. -/
def queryClaimant (now : Timestamp) (claimant : ClaimantId) (includeTerminal : Bool) :
    Method (List ReservationRecord) := do
  reconcile now
  let records := (← get).records.values.filter fun r =>
    r.terms.claimant = claimant && (includeTerminal || !isTerminal r.state)
  pure (records.take maxQueryResults)

/-- `query_resource`. -/
def queryResource (now : Timestamp) (resource : ResourceName) (window : Interval)
    (includeTerminal : Bool) : Method (List ReservationRecord) := do
  reconcile now
  let c ← get
  let records := c.records.values.filter fun r =>
    (includeTerminal || c.currentGeneration[r.id]? = some r.generation) &&
      (r.authority.resources.any fun ref => ref.resource = resource) &&
      (window.empty || r.terms.interval.overlaps window)
  pure (records.take maxQueryResults)

/-- `query_remaining`. -/
def queryRemaining (now : Timestamp) (resource : ResourceName) (window : Interval) :
    Method RemainingCapacity := do
  reconcile now
  Op.lift (validateInterval window)
  let c ← get
  match c.ledger[resource]? with
  | none => throw ⟨.notFound, ascii "resource '" ++ resource.text ++
      ascii "' is not known to the ledger"⟩
  | some entry =>
    let ceiling := if entry.withdrawn then 0 else entry.capacity.committableCeiling
    let used := c.index.peakCombined resource window
    pure
      { resource
        generation := entry.capacity.generation
        window
        committableCeiling := ceiling
        committedPeak := c.index.peakCommitted resource window
        holdsPeak := c.index.peakHolds resource window
        remaining := I64.wrap (max (ceiling.val - used.val) 0)
        maintenanceCovers :=
          !entry.withdrawn && (entry.capacity.maintenanceCovers window).isSome
        overcommitEmergency := c.emergency resource }

/-- `query_timeline`. -/
def queryTimeline (now : Timestamp) (resource : ResourceName) (window : Interval)
    (maxPoints : Nat) : Method CapacityTimeline := do
  reconcile now
  Op.lift (validateInterval window)
  Op.refuseIf (maxPoints = 0 || 4096 < maxPoints)
    (makeError .invalidArgument "timeline point bound must be within [1, 4096]")
  let timeline := (← get).index.timeline resource window maxPoints
  pure { resource, window, points := timeline.points, truncated := timeline.truncated }

/-- `explain_conflicts`. -/
def explainConflicts (now : Timestamp) (terms : ReservationTerms) (candidate : ReservationId) :
    Method AdmissionReport := do
  Op.lift (validateTerms terms)
  reconcile now
  let c ← get
  let (policy, note) := c.policyFor terms.policy
  let binding ← Op.lift (c.resolveBinding terms)
  withSuspension do
    match (c.currentRecord candidate).filter fun _ => !candidate.isNil with
    | some r => suspend r
    | none => pure ()
    pure (((← get).assess terms binding policy).addNote note)

end Coordinator

end Brf
