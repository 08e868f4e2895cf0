import Brf.Revalidation

/-!
# Lifecycle operations

Model of `release_locked`, `recall_locked`, `revoke_locked`, `revalidate_locked`,
`reconcile_lifecycle_locked` (`src/coordinator_lifecycle.cpp`) and `reconcile_attempt_locked`
(`src/coordinator_admission.cpp`).

* The order of the checks is the source's: which of them come before the clock is reconciled, and
  where a retained attempt answers, differs from one operation to the next.
* The pointer to the record is taken before reconciliation; what it shows afterwards is read again
  here (`rereadRecord`).
-/

namespace Brf

open Brf.Lib

/-- `LifecycleResult`. -/
structure LifecycleResult where
  record : ReservationRecord := {}
  replayed : Bool := false
  transitions : Nat := 0
  deriving DecidableEq, Repr, Inhabited

/-- The record with a grace of its own. -/
def ReservationRecord.graced (r : ReservationRecord) (grace : Duration) : ReservationRecord :=
  { r with recallGrace := grace }

/-- `AttemptReconciliation`. -/
structure AttemptReconciliation where
  attempt : AttemptId := 0
  known : Bool := false
  outcome : AdmissionOutcome := .invalidRequest
  reservation : ReservationId := 0
  generation : ReservationGeneration := 0
  sequence : DurableSequence := 0
  committed : Bool := false
  note : Text := []
  deriving DecidableEq, Repr, Inhabited

namespace Coordinator

/-- The record a pointer taken earlier shows now. -/
def rereadRecord (r : ReservationRecord) : Method ReservationRecord := do
  pure (((← get).records[r.key]?).getD r)

/-- The record an operation names, or the error of its absence. -/
def namedRecord (id : ReservationId) (generation : ReservationGeneration) (absent : String) :
    Method ReservationRecord := do
  match (← get).findRecord id generation with
  | none => throw (makeError .notFound absent)
  | some r => pure r

/-- `context.reason.empty() ? fallback : context.reason`. -/
def reasonOr (context : RequestContext) (fallback : String) : Text :=
  if context.reason.isEmpty then ascii fallback else context.reason

/-- A caller's transition, with the attempt it retains. -/
def transitionFor (context : RequestContext) (r : ReservationRecord) (target : ReservationState)
    (now : Timestamp) (reason : Text) : Method ReservationRecord := do
  let (r, attempt) ← transition r target now reason context 0
  modify fun c => c.rememberAttempt attempt
  pure r

/-- `release_locked`. -/
def release (now : Timestamp) (context : RequestContext) (id : ReservationId)
    (generation : ReservationGeneration) : Method LifecycleResult := do
  Op.lift ((← get).validateContext context true)
  let r ← namedRecord id generation "the reservation generation to release does not exist"
  Op.refuseIf (!context.claimant.isNil && context.claimant ≠ r.terms.claimant)
    (makeError .authorityRequired "only the owning claimant may release a reservation")
  Op.when (!context.claimant.isNil)
    (ensureClaimant context.claimant context.claimantGeneration now)
  reconcile now
  let r ← rereadRecord r
  if r.state = .released then pure { record := r, replayed := true }
  else
    Op.refuseIf (isTerminal r.state) ⟨.illegalTransition, ascii "a reservation in state " ++
      r.state.spelling ++ ascii " cannot be released"⟩
    let r ← transitionFor context r .released now (reasonOr context "released by claimant")
    pure { record := r, transitions := 1 }

/-- The permission check of `recall_locked`. -/
def recallPermitted (policy : PolicyRecord) (r : ReservationRecord) : Bool :=
  match r.terms.guarantee with
  | .scavenger | .preemptible => true
  | .«protected» => policy.allowRecallProtected || r.terms.recallPermitted
  | .guaranteed => policy.allowRecallGuaranteed || r.terms.recallPermitted

/-- The effect instant of a recall: at once when forced or unset, never after the interval. -/
def recallEffect (r : ReservationRecord) (now effectiveAt : Timestamp) (force : Bool) :
    Result Timestamp := do
  let effect := if force || effectiveAt.val = 0 then now else effectiveAt
  refuse (effect < now) .invalidInterval "recall effect must not be scheduled in the past"
  pure (if r.terms.interval.stop < effect then r.terms.interval.stop else effect)

/-- The part of `recall_locked` that follows the pending transition: the grace is set, and the index
and the queues follow it. -/
def setGrace (r : ReservationRecord) (grace : Duration) : Method ReservationRecord := do
  let graced := r.graced grace
  modify fun c => c.putRecord graced
  updateIndex graced
  modify fun c => c.syncQueues graced
  pure graced

/-- `recall_locked`. -/
def «recall» (now : Timestamp) (context : RequestContext) (id : ReservationId)
    (generation : ReservationGeneration) (effectiveAt : Timestamp) (grace : Duration)
    (force : Bool) : Method LifecycleResult := do
  Op.lift ((← get).validateContext context true)
  let r ← namedRecord id generation "the reservation generation to recall does not exist"
  if (← get).attempts[context.attempt]?.isSome then pure { record := r, replayed := true }
  else
    reconcile now
    let r ← rereadRecord r
    Op.refuseIf (!r.consumes) ⟨.illegalTransition, ascii "a reservation in state " ++
      r.state.spelling ++ ascii " does not consume capacity and cannot be recalled"⟩
    let policy := ((← get).policyFor r.authority.policy).1
    Op.refuseIf (!recallPermitted policy r) ⟨.policyRejected, ascii "a " ++
      r.terms.guarantee.spelling ++ ascii " reservation cannot be recalled under policy '" ++
      policy.name.text ++ ascii "' and its contract does not permit recall"⟩
    let effect ← Op.lift (recallEffect r now effectiveAt force)
    let grace := if grace.val = 0 then policy.defaultRecallGrace else grace
    if r.state = .recallPending && r.recallEffectiveAt = effect then
      pure { record := r, replayed := true }
    else if effect ≤ now then
      let r ← transitionFor context r .revoked now
        (reasonOr context "recalled with immediate effect")
      modify countRevocation
      pure { record := r, transitions := 1 }
    else
      let (r, attempt) ← transition r .recallPending now
        (reasonOr context "recall recorded; effect pending") context effect
      let r ← setGrace r grace
      modify fun c => c.rememberAttempt attempt
      pure { record := r, transitions := 1 }

/-- `revoke_locked`. -/
def revoke (now : Timestamp) (context : RequestContext) (id : ReservationId)
    (generation : ReservationGeneration) : Method LifecycleResult := do
  Op.lift ((← get).validateContext context true)
  let r ← namedRecord id generation "the reservation generation to revoke does not exist"
  reconcile now
  let r ← rereadRecord r
  if (← get).attempts[context.attempt]?.isSome then pure { record := r, replayed := true }
  else if r.state = .revoked then pure { record := r, replayed := true }
  else
    Op.refuseIf (!r.consumes) ⟨.illegalTransition, ascii "a reservation in state " ++
      r.state.spelling ++ ascii " cannot be revoked"⟩
    let r ← transitionFor context r .revoked now (reasonOr context "revoked by authority")
    modify countRevocation
    pure { record := r, transitions := 1 }

/-- `revalidate_locked`. -/
def revalidate (now : Timestamp) (context : RequestContext) (id : ReservationId)
    (generation : ReservationGeneration) (markStale : Bool) : Method LifecycleResult := do
  Op.lift ((← get).validateContext context true)
  let r ← namedRecord id generation "the reservation generation to revalidate does not exist"
  reconcile now
  let r ← rereadRecord r
  Op.refuseIf (isTerminal r.state) ⟨.illegalTransition, ascii "a reservation in state " ++
    r.state.spelling ++ ascii " has no live authority to revalidate"⟩
  if r.applicability = .current then pure { record := r, replayed := true }
  else if markStale then
    let r ← markApplicability r .stale r.applicabilityReason now
    pure { record := r, transitions := 1 }
  else
    autoRevalidate r now context
    match ((← get).currentRecord id).filter fun latest => latest.applicability = .current with
    | some latest =>
      pure { record := latest, transitions := if latest.generation = generation then 0 else 1 }
    | none => throw (makeError .staleGeneration
        ("revalidation refused: the bound generations are not current and the successor terms " ++
          "do not close against authoritative capacity"))

/-- `reconcile_lifecycle_locked`. -/
def reconcileLifecycle (now : Timestamp) (context : RequestContext) : Method LifecycleResult := do
  let before ← get
  Op.lift (before.validateContext context false)
  reconcile now
  refreshApplicability now true
  settle now
  let stats := (← get).stats
  pure { transitions := (stats.expiries - before.stats.expiries) +
    (stats.revocations - before.stats.revocations) }

/-- `reconcile_attempt_locked`. -/
def reconcileAttempt (context : RequestContext) (attempt : AttemptId) :
    Method AttemptReconciliation := do
  let c ← get
  Op.lift (c.validateContext context false)
  match c.attempts[attempt]? with
  | none => pure { attempt, note := ascii "no durable record exists for this attempt" }
  | some record =>
    let committed := outcomeIsAcceptance record.outcome &&
      (c.findRecord record.reservation record.generation).isSome
    pure
      { attempt
        known := true
        outcome := record.outcome
        reservation := record.reservation
        generation := record.generation
        sequence := record.resultSequence
        committed
        note := if committed then ascii "durable commit confirmed"
          else ascii "durable outcome recorded without a commit" }

end Coordinator

end Brf
