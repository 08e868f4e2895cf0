import Brf.Admission

/-!
# Applicability and revalidation

Model of `refresh_applicability_locked` and `auto_revalidate_record_locked`
(`src/coordinator_lifecycle.cpp`).

* `evidenceProblem` is the first generation of a record's authority that is no longer in force.
* `autoRevalidate` tries to commit a successor of the record on the generations now in force; a
  record that does not close is left as it is.
* `refreshTurn` is the body of the refresh loop. It reads the record again after a revalidation: the
  record it then looks at is the superseded one.
-/

namespace Brf

open Brf.Lib

namespace Coordinator

/-! ## Evidence -/

/-- The reason a bound resource is out of date. -/
def resourceProblem (c : Coordinator) (ref : ResourceRef) : Option ApplicabilityReason :=
  match c.ledger[ref.resource]?.filter fun entry => !entry.withdrawn with
  | none => some .resourceWithdrawn
  | some entry =>
    if entry.capacity.generation ≠ ref.generation then some .resourceGenerationChanged else none

/-- The reason the path of a record is out of date. -/
def pathProblem (c : Coordinator) (r : ReservationRecord) : Option ApplicabilityReason :=
  if r.authority.pathGeneration.val = 0 then none
  else match c.paths[r.terms.path]?.filter fun entry => !entry.retired with
    | none => some .pathRetired
    | some entry =>
      if entry.path.generation ≠ r.authority.pathGeneration then some .pathGenerationChanged
      else none

/-- The reason a failure domain of a record is out of date. -/
def domainProblem (c : Coordinator) (r : ReservationRecord) : Option ApplicabilityReason :=
  if r.authority.failureDomains.all c.ledger.isCurrentFailureDomain then none
  else some .failureDomainGenerationChanged

/-- The first problem `refresh_applicability_locked` finds in the evidence of a record. -/
def evidenceProblem (c : Coordinator) (r : ReservationRecord) : Option ApplicabilityReason :=
  (r.authority.resources.findSome? c.resourceProblem).or <|
    (c.pathProblem r).or (c.domainProblem r)

/-! ## Revalidation -/

/-- The policy a revalidation is decided under. -/
def revalidationPolicy (c : Coordinator) (r : ReservationRecord) : PolicyRecord :=
  (c.policyFor (if r.authority.policy.empty then r.terms.policy else r.authority.policy)).1

/-- The successor `auto_revalidate_record_locked` commits; it keeps the recall fields. -/
def revalidatedSuccessor (c : Coordinator) (r : ReservationRecord) (binding : ResolvedBinding)
    (now : Timestamp) (context : RequestContext) : ReservationRecord :=
  let policy := c.revalidationPolicy r
  let state := committedState now r.terms.interval
  { r with
    generation := r.generation + 1
    authority := c.authorityFor r.terms policy binding (r.generation + 1)
    predecessor := r.id
    predecessorGeneration := r.generation
    applicability := .current
    applicabilityReason := .current
    state
    activatedAt := if state = .active && r.activatedAt.val = 0 then now else r.activatedAt
    stateChangedAt := now
    lastProvenance := c.makeProvenance context c.predictedSequence now
    sequence := c.predictedSequence }

/-- The edge of a revalidation. -/
def revalidationEdge (c : Coordinator) (r successor : ReservationRecord) (now : Timestamp) :
    SupersessionEdge :=
  { predecessor := r.id
    predecessorGeneration := r.generation
    successor := successor.id
    successorGeneration := successor.generation
    recordedAt := now
    sequence := c.predictedSequence
    reason := ascii "revalidated against authoritative generations" }

/-- The durable record of a revalidation. -/
def revalidationMutation (c : Coordinator) (r successor : ReservationRecord) (now : Timestamp) :
    ReservationMutation :=
  { record := successor
    supersedeRecord := true
    edge := some (c.revalidationEdge r successor now) }

/-- The record a revalidation leaves of the generation it supersedes. -/
def revalidatedForm (r : ReservationRecord) (now : Timestamp) (provenance : Provenance) :
    ReservationRecord :=
  r.withState .superseded now (ascii "superseded by revalidation") provenance

/-- What the commit of `auto_revalidate_record_locked` does in memory once its record is durable. -/
def projectRevalidation (r : ReservationRecord) (now : Timestamp) (mutation : ReservationMutation)
    (provenance : Provenance) : Method Unit := do
  let superseded := revalidatedForm r now provenance
  modify fun c => (c.countState r.state .superseded).putRecord superseded
  indexErase superseded
  modify fun c => c.syncQueues superseded
  modify fun c => { c with edges := c.edges ++ mutation.edge.toList }
  installRecord mutation.record
  keep

/-- The commit of `auto_revalidate_record_locked`. -/
def commitRevalidation (r successor : ReservationRecord) (now : Timestamp)
    (context : RequestContext) : Method Unit := do
  let c ← get
  let mutation := c.revalidationMutation r successor now
  discard <| appendPredicted (.reservationAmend mutation)
  projectRevalidation r now mutation (c.makeProvenance context c.predictedSequence now)

/-- `auto_revalidate_record_locked`. -/
def autoRevalidate (r : ReservationRecord) (now : Timestamp) (context : RequestContext) :
    Method Unit := do
  match (← get).resolveBinding r.terms with
  | .error _ => pure ()
  | .ok binding => withSuspension do
    suspend r
    let c ← get
    if (c.assess r.terms binding (c.revalidationPolicy r)).outcome = .committable then
      commitRevalidation r (c.revalidatedSuccessor r binding now context) now context

/-! ## Refresh -/

/-- A record whose evidence is out of date is marked. -/
def markOutdated (r : ReservationRecord) (reason : ApplicabilityReason) (now : Timestamp) :
    Method Unit :=
  discard <| markApplicability r .revalidationRequired reason now

/-- The body of the loop of `refresh_applicability_locked`. -/
def refreshTurn (now : Timestamp) (autoRevalidation : Bool) (key : ReservationKey) :
    Method Unit := do
  let c ← get
  match c.records[key]? with
  | none => pure ()
  | some r =>
    match c.evidenceProblem r with
    | none =>
      if r.applicability ≠ .current then
        discard <| markApplicability r .current .current now
    | some reason =>
      if autoRevalidation &&
          (c.policyFor r.authority.policy).1.autoRevalidateOnGenerationChange then
        autoRevalidate r now (c.internalContext "policy-permitted revalidation")
        let r := ((← get).records[key]?).getD r
        if r.applicability ≠ .current then markOutdated r reason now
      else markOutdated r reason now

/-- The records `refresh_applicability_locked` looks at. -/
def liveKeys (c : Coordinator) : List ReservationKey :=
  (c.records.toList.filter fun entry => !isTerminal entry.2.state).map (·.1)

/-- `refresh_applicability_locked`. -/
def refreshApplicability (now : Timestamp) (autoRevalidation : Bool) : Method Unit := do
  Op.each (refreshTurn now autoRevalidation) (← get).liveKeys

end Coordinator

end Brf
