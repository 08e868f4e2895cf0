import Brf.Assessment
import Brf.Recovery

/-!
# Admission

Model of `create_locked` and `amend_locked` (`src/coordinator_admission.cpp`).

* Both run in the same stages: the checks that need no evaluation (`admitCreate`, `admitAmend`), the
  evaluation inside a suspension, the durable record, and the projection of that record into memory.
  `CreatePlan` and `AmendPlan` carry what the first stage established.
* `createMutation` and `amendMutation` build the record of one commit: it carries every generation
  it registers, every companion transition and the retained attempt.
* `amendMutation` reads one vector at an index it does not check. The source's behaviour is
  undefined when the index is out of range; the model ends the operation with `outOfRange`.
* `current_series[id]` inserts a zero for an unknown series; the model reads zero and inserts
  nothing.
-/

namespace Brf

open Brf.Lib

/-- `CommitResult`. -/
structure CommitResult where
  record : ReservationRecord := {}
  hasSeries : Bool := false
  series : ReservationSeries := {}
  members : List ReservationRecord := []
  report : AdmissionReport := {}
  replayed : Bool := false
  attempt : AttemptId := 0
  sequence : DurableSequence := 0
  deriving DecidableEq, Repr, Inhabited

/-- `AmendmentResult`. -/
structure AmendmentResult where
  predecessor : ReservationRecord := {}
  successor : ReservationRecord := {}
  hasSeries : Bool := false
  series : ReservationSeries := {}
  members : List ReservationRecord := []
  report : AdmissionReport := {}
  replayed : Bool := false
  deriving DecidableEq, Repr, Inhabited

/-- `request_fingerprint`. -/
def requestFingerprint (terms : ReservationTerms) (id : ReservationId) (holds : List HoldId) :
    Identity128 :=
  fingerprint128 (encode terms ++ encode id ++ encode holds)

/-- `amendment_fingerprint`. -/
def amendmentFingerprint (target : ReservationId) (generation : ReservationGeneration)
    (terms : ReservationTerms) : Identity128 :=
  fingerprint128 (encode target ++ encode generation ++ encode terms)

/-- `explanation += " | " + note`, when there is a note. -/
def Assessment.addNote (a : Assessment) (note : Text) : Assessment :=
  if note.isEmpty then a else { a with explanation := a.explanation ++ ascii " | " ++ note }

namespace Coordinator

/-! ## Shared stages -/

/-- The current generation of a series. -/
def seriesOf (c : Coordinator) (id : ReservationSeriesId) : Option ReservationSeries :=
  c.seriesRecords[(⟨id, c.currentSeries[id]?.getD 0⟩ : SeriesKey)]?

/-- The current generations of the members of a series. -/
def seriesMembers (c : Coordinator) (series : ReservationSeries) : List ReservationRecord :=
  series.members.filterMap c.currentRecord

/-- The state a commit gives a record. -/
def committedState (now : Timestamp) (window : Interval) : ReservationState :=
  if commitsAsActive now window then .active else .committed

/-- The generations a commit rests on. -/
def authorityFor (c : Coordinator) (terms : ReservationTerms) (policy : PolicyRecord)
    (binding : ResolvedBinding) (generation : ReservationGeneration) : AuthorityVector :=
  { fabricEpoch := c.incarnation.epoch
    reservationGeneration := generation
    claimant := terms.claimant
    claimantGeneration := terms.claimantGeneration
    capacitySnapshot := c.lastCapacitySnapshot
    capacityGeneration := c.lastCapacityGeneration
    policy := policy.name
    policyGeneration := policy.generation
    pathGeneration := binding.pathGeneration
    resources := binding.resources
    failureDomains := binding.failureDomains }

/-- The attempt record of a create or amend. -/
def attemptFor (context : RequestContext) (fingerprint : Identity128) (outcome : AdmissionOutcome)
    (key : ReservationKey) (sequence : DurableSequence) (claimant : ClaimantId) (now : Timestamp) :
    AttemptRecord :=
  { attempt := context.attempt
    fingerprint
    outcome
    reservation := key.id
    generation := key.generation
    resultSequence := sequence
    claimant
    at' := now }

/-- A durable refusal: its mutation carries no sequence, the retained attempt does. -/
def refuseAttempt (attempt : DurableSequence → AttemptRecord) : Method DurableSequence := do
  let sequence ← append (.attemptOutcome (attempt 0))
  modify fun c => c.rememberAttempt (attempt sequence)
  pure sequence

/-- A commit record is appended; its number must be the predicted one. -/
def appendPredicted (record : DurableRecord) : Method DurableSequence := do
  let predicted := (← get).predictedSequence
  let appended ← append record
  Op.refuseIf (appended ≠ predicted)
    (makeError .internal "durable sequence prediction disagrees with the journal")
  pure appended

/-- The current generation of a series becomes the one of a commit. -/
def putSeries (c : Coordinator) (series : ReservationSeries) : Coordinator :=
  { c with
    seriesRecords := c.seriesRecords.insert series.key series
    currentSeries := c.currentSeries.insert series.id series.generation }

/-- What both commits do last: archive history, and compact a grown journal. -/
def settle (now : Timestamp) : Method Unit := do
  releaseTerminalHistory now
  compactIfDue

/-! ## Create: checks -/

/-- The policy limits of `create_locked`. -/
def checkLimits (policy : PolicyRecord) (terms : ReservationTerms) (now : Timestamp) :
    Result Unit := do
  if !policy.allowPastStart && terms.interval.start < now then
    throw ⟨.policyRejected, ascii "policy '" ++ policy.name.text ++
      ascii "' forbids a reservation that starts in the past"⟩
  refuse (0 < policy.maxFutureHorizon.val &&
      policy.maxFutureHorizon < I64.wrap (terms.interval.start.val - now.val)) .policyRejected
    "requested start is beyond the policy future horizon"
  refuse (0 < policy.minimumReservationAmount.val &&
      terms.amount < policy.minimumReservationAmount) .policyRejected
    "requested amount is below the policy minimum"
  refuse (0 < policy.maxExtraHeadroom.val && policy.maxExtraHeadroom < terms.headroomRequirement)
    .policyRejected "requested headroom exceeds the policy allowance"
  refuse (terms.recurrence.enabled && policy.maxSeriesMembers < terms.recurrence.count)
    .policyRejected "recurrence series exceeds the policy member bound"

/-- What `create_locked` has established before it evaluates. -/
structure CreatePlan where
  now : Timestamp
  context : RequestContext
  terms : ReservationTerms
  id : ReservationId
  seriesId : ReservationSeriesId
  fingerprint : Identity128
  policy : PolicyRecord
  note : Text
  binding : ResolvedBinding
  intervals : List Interval
  holds : List HoldId

/-- `build_replay_result` and what `create_locked` adds to it. -/
def replayCreate (c : Coordinator) (previous : AttemptRecord) (attempt : AttemptId) (note : Text) :
    CommitResult :=
  let report : AdmissionReport :=
    { outcome := previous.outcome
      explanation := ascii "IDEMPOTENT_REPLAY: attempt " ++ formatIdentity attempt ++
        ascii " already has durable outcome " ++ previous.outcome.spelling }
  let result : CommitResult :=
    { replayed := true
      attempt
      sequence := previous.resultSequence
      report := report.addNote note }
  match c.findRecord previous.reservation previous.generation with
  | none => result
  | some record =>
    match (c.seriesOf record.series).filter fun _ => record.seriesMember with
    | none => { result with record, hasSeries := record.seriesMember }
    | some series => { result with
        record
        hasSeries := true
        series
        members := c.seriesMembers series }

/-- The identities of the members of a series that is being created. -/
def memberIds (seriesId : ReservationSeriesId) (count : Nat) : List ReservationId :=
  (List.range count).map fun i => deriveMemberId seriesId (Word.cast 64 i)

/-- `create_locked` up to the evaluation: a replayed answer, or the plan. -/
def admitCreate (now : Timestamp) (context : RequestContext) (terms : ReservationTerms)
    (requestedId : ReservationId) (dryRun : Bool) (consumeHolds : List HoldId) :
    Method (CommitResult ⊕ CreatePlan) := do
  Op.lift ((← get).validateContext context true)
  Op.lift (validateTerms terms)
  Op.refuseIf (!context.claimant.isNil && context.claimant ≠ terms.claimant)
    (makeError .authorityRequired
      "request claimant identity does not match the reservation claimant")
  ensureClaimant terms.claimant terms.claimantGeneration now
  reconcile now
  let c ← get
  let (policy, note) := c.policyFor terms.policy
  Op.lift (checkLimits policy terms now)
  let id :=
    if requestedId.isNil then deriveSeriesId terms.claimant context.attempt 1 else requestedId
  let seriesId :=
    if terms.recurrence.enabled then deriveSeriesId terms.claimant context.attempt 2 else 0
  let fingerprint := requestFingerprint terms id consumeHolds
  match c.attempts[context.attempt]? with
  | some previous =>
    Op.refuseIf (previous.fingerprint ≠ fingerprint)
      (makeError .conflict "attempt identity was already used for a different request")
    pure (.inl (c.replayCreate previous context.attempt note))
  | none =>
    Op.refuseIf c.currentGeneration[id]?.isSome ⟨.conflict, ascii "reservation identity " ++
      formatIdentity id ++ ascii " is already bound to an authoritative commitment"⟩
    Op.refuseIf (terms.recurrence.enabled && (memberIds seriesId terms.recurrence.count.val).any
        fun memberId => c.currentGeneration[memberId]?.isSome)
      (makeError .conflict "series member identity is already in use")
    Op.refuseIf (!dryRun && c.config.maxLiveReservations ≤ c.liveCount)
      (makeError .resourceExhausted "the coordinator live-reservation bound has been reached")
    let binding ← Op.lift (c.resolveBinding terms)
    let intervals ← Op.lift (expandSeries terms.interval terms.recurrence policy.maxSeriesMembers.val)
    pure (.inr { now, context, terms, id, seriesId, fingerprint, policy, note, binding, intervals,
                 holds := consumeHolds })

/-! ## Create: evaluation -/

/-- A hold named for consumption leaves the index for the evaluation. -/
def suspendConsumed (context : RequestContext) (id : HoldId) : Method Unit := do
  match (← get).holds[id]?.filter fun hold => !hold.released with
  | none => throw (makeError .notFound "a hold named for consumption does not exist")
  | some hold =>
    Op.refuseIf (hold.session ≠ context.session)
      (makeError .authorityRequired "only the owning session may consume a provisional hold")
    suspendHold id

/-- The inner loop of the preemption planning: candidates are displaced one by one until every
window closes or the victims run out. -/
def planVictims (p : CreatePlan) : List IndexEntry → List IndexEntry →
    Method (List IndexEntry × Option (List Assessment))
  | [], victims => pure (victims, none)
  | candidate :: rest, victims => do
    if p.policy.maxPreemptionVictims.val ≤ victims.length then pure (victims, none)
    else
      match (← get).findRecord candidate.id candidate.holderGeneration with
      | none => planVictims p rest victims
      | some victim =>
        match ← Op.attempt (suspend victim) with
        | .error _ => planVictims p rest victims
        | .ok () =>
          let victims := victims ++ [candidate]
          match (← get).evaluate p.terms p.binding p.policy p.intervals with
          | .ok evaluations => pure (victims, some evaluations)
          | .error _ => planVictims p rest victims

/-- The outer loop of the preemption planning, over the bound resources. -/
def planPreemption (p : CreatePlan) (window : Interval) : List ResourceRef → List IndexEntry →
    Method (List IndexEntry × Option (List Assessment))
  | [], victims => pure (victims, none)
  | ref :: rest, victims => do
    if p.policy.maxPreemptionVictims.val ≤ victims.length then pure (victims, none)
    else
      let candidates := (← get).preemptionCandidates ref.resource window p.terms.guarantee p.policy
        p.id
      match ← planVictims p candidates victims with
      | (victims, some evaluations) => pure (victims, some evaluations)
      | (victims, none) => planPreemption p window rest victims

/-- Whether `create_locked` plans preemption when the windows do not close. -/
def mayPreempt (c : Coordinator) (p : CreatePlan) : Bool :=
  p.policy.allowPreemptionOnCommit && c.config.enablePreemption &&
    !(p.terms.interval.start < p.now) && 0 < p.policy.maxPreemptionVictims.val

/-- The evaluation of `create_locked`: the refusal, or the assessments and the victims. -/
def evaluateCreate (p : CreatePlan) :
    Method (Except Assessment (List Assessment × List IndexEntry)) := do
  Op.each (suspendConsumed p.context) p.holds
  let c ← get
  match c.evaluate p.terms p.binding p.policy p.intervals with
  | .ok evaluations => pure (.ok (evaluations, []))
  | .error (window, failure) =>
    if c.mayPreempt p then
      match ← planPreemption p window p.binding.resources [] with
      | (victims, some evaluations) => pure (.ok (evaluations, victims))
      | (_, none) => pure (.error failure)
    else pure (.error failure)

/-- The evidence of an accepted create. -/
def acceptedReport (p : CreatePlan) (evaluations : List Assessment) (victims : List IndexEntry) :
    AdmissionReport :=
  let accepted := evaluations.headD {}
  let accepted :=
    if 1 < p.intervals.length then
      accepted.addNote (ascii "series members=" ++ toDecimal p.intervals.length)
    else accepted
  let accepted := { accepted.addNote p.note with
    victims := victims.map IndexEntry.id
    victimGenerations := victims.map IndexEntry.holderGeneration
    preemptionPlanned := !victims.isEmpty }
  if victims.isEmpty then accepted
  else accepted.addNote (ascii "preemption victims=" ++ toDecimal victims.length)

/-! ## Create: commit -/

/-- `make_record`. -/
def makeRecord (c : Coordinator) (p : CreatePlan) (id : ReservationId) (window : Interval)
    (index : SeriesIndex) (isMember : Bool) : ReservationRecord :=
  let state := committedState p.now window
  { id
    generation := 1
    seriesMember := isMember
    series := p.seriesId
    seriesIndex := index
    terms := shifted p.terms window
    authority := c.authorityFor p.terms p.policy p.binding 1
    declaredAt := p.now
    committedAt := p.now
    stateChangedAt := p.now
    state
    activatedAt := if state = .active then p.now else 0
    lastProvenance := c.makeProvenance p.context c.predictedSequence p.now
    sequence := c.predictedSequence }

/-- The records one create registers. -/
def createRecords (c : Coordinator) (p : CreatePlan) : List ReservationRecord :=
  if p.terms.recurrence.enabled then
    p.intervals.mapIdx fun i window =>
      c.makeRecord p (deriveMemberId p.seriesId (Word.cast 64 i)) window (Word.cast 64 i) true
  else [c.makeRecord p p.id (p.intervals.headD {}) 0 false]

/-- The series one create registers. -/
def createSeries (c : Coordinator) (p : CreatePlan) : ReservationSeries :=
  { id := p.seriesId
    generation := 1
    claimant := p.terms.claimant
    claimantGeneration := p.terms.claimantGeneration
    spec := p.terms.recurrence
    firstInterval := p.intervals.headD {}
    amount := p.terms.amount
    state := .committed
    createdAt := p.now
    stateChangedAt := p.now
    lastProvenance := c.makeProvenance p.context c.predictedSequence p.now
    sequence := c.predictedSequence
    members := (c.createRecords p).map ReservationRecord.id }

/-- The companion transition of a preemption victim. -/
def preemptionCompanion (c : Coordinator) (p : CreatePlan) (victim : IndexEntry) :
    Option StateMutation :=
  (c.findRecord victim.id victim.holderGeneration).map fun r =>
    { id := r.id
      generation := r.generation
      fromState := r.state
      toState := .revoked
      at' := p.now
      reason := ascii "preempted by reservation " ++ p.id.toHex
      provenance := c.makeProvenance p.context c.predictedSequence p.now }

/-- The durable record of one create. -/
def createMutation (c : Coordinator) (p : CreatePlan) (victims : List IndexEntry) :
    ReservationMutation :=
  let records := c.createRecords p
  let record := records.headD {}
  { record
    members := records.tail
    series := if p.terms.recurrence.enabled then some (c.createSeries p) else none
    companions := victims.filterMap (c.preemptionCompanion p)
    attempt := some (attemptFor p.context p.fingerprint .committable record.key c.predictedSequence
      p.terms.claimant p.now) }

/-- A companion transition is made in memory. -/
def applyCompanion (companion : StateMutation) : Method Unit := do
  let c ← get
  match c.findRecord companion.id companion.generation with
  | none => pure ()
  | some r =>
    let moved := companion.applyTo r
    set ((c.countState r.state companion.toState).putRecord moved)
    syncIndex moved
    modify fun c => c.syncQueues moved

/-- A committed record is registered, indexed and queued. -/
def installRecord (r : ReservationRecord) : Method Unit := do
  modify fun c => c.registerRecord r
  syncIndex r
  modify fun c => c.syncQueues r

/-- A consumed hold is released; its entries have already left the index. -/
def consumeHold (p : CreatePlan) (c : Coordinator) (id : HoldId) : Coordinator :=
  match c.holds[id]? with
  | none => c
  | some hold => { c with
      holds := c.holds.insert id
        (hold.release p.now (ascii "consumed by reservation " ++ p.id.toHex)) }

/-- What the commit of `create_locked` does in memory once its record is durable. -/
def projectCreate (p : CreatePlan) (mutation : ReservationMutation) (sequence : DurableSequence) :
    Method Unit := do
  Op.each applyCompanion mutation.companions
  Op.each installRecord (mutation.record :: mutation.members)
  modify fun c => mutation.series.toList.foldl putSeries c
  modify fun c => c.rememberAttempt (attemptFor p.context p.fingerprint .committable
    mutation.record.key sequence p.terms.claimant p.now)
  modify fun c => p.holds.foldl (consumeHold p) c
  keep

/-- The commit of `create_locked`: the durable record, then its projection into memory. -/
def commitCreate (p : CreatePlan) (mutation : ReservationMutation) : Method DurableSequence := do
  let sequence ← appendPredicted (.reservationCommit mutation)
  projectCreate p mutation sequence
  pure sequence

/-- What `create_locked` does with an evaluation. -/
def finishCreate (p : CreatePlan) (dryRun : Bool) :
    Except Assessment (List Assessment × List IndexEntry) → Method CommitResult
  | .error failure => do
    if dryRun then pure { report := failure, attempt := p.context.attempt }
    else
      let sequence ← refuseAttempt fun sequence =>
        attemptFor p.context p.fingerprint failure.outcome ⟨p.id, 0⟩ sequence p.terms.claimant p.now
      pure { report := failure.addNote p.note, attempt := p.context.attempt, sequence }
  | .ok (evaluations, victims) => do
    let report := acceptedReport p evaluations victims
    if dryRun then pure { report, attempt := p.context.attempt }
    else
      let mutation := (← get).createMutation p victims
      let sequence ← commitCreate p mutation
      settle p.now
      pure { record := mutation.record
             hasSeries := mutation.series.isSome
             series := mutation.series.getD {}
             members := mutation.record :: mutation.members
             report
             attempt := p.context.attempt
             sequence }

/-- `create_locked`. -/
def create (now : Timestamp) (context : RequestContext) (terms : ReservationTerms)
    (requestedId : ReservationId) (dryRun : Bool) (consumeHolds : List HoldId) :
    Method CommitResult := do
  match ← admitCreate now context terms requestedId dryRun consumeHolds with
  | .inl replay => pure replay
  | .inr p => withSuspension do
    let evaluation ← evaluateCreate p
    finishCreate p dryRun evaluation

/-! ## Amend: checks -/

/-- What `amend_locked` has established before it evaluates. -/
structure AmendPlan where
  now : Timestamp
  context : RequestContext
  target : ReservationKey
  terms : ReservationTerms
  fingerprint : Identity128
  predecessor : ReservationRecord
  policy : PolicyRecord
  note : Text
  binding : ResolvedBinding
  intervals : List Interval

/-- The replayed answer of `amend_locked`. -/
def replayAmend (c : Coordinator) (previous : AttemptRecord) (predecessor : ReservationRecord) :
    AmendmentResult :=
  let result : AmendmentResult :=
    { replayed := true
      predecessor
      report := { outcome := previous.outcome
                  explanation := ascii "IDEMPOTENT_REPLAY: amendment attempt already durable" } }
  match c.findRecord previous.reservation previous.generation with
  | none => result
  | some successor =>
    match (c.seriesOf successor.series).filter fun _ => successor.seriesMember with
    | none => { result with successor, hasSeries := successor.seriesMember }
    | some series => { result with
        successor
        hasSeries := true
        series
        members := c.seriesMembers series }

/-- `amend_locked` up to the suspension: a replayed answer, or the plan. The state of the
predecessor is checked before the clock is reconciled. -/
def admitAmend (now : Timestamp) (context : RequestContext) (target : ReservationId)
    (generation : ReservationGeneration) (terms : ReservationTerms) :
    Method (AmendmentResult ⊕ AmendPlan) := do
  Op.lift ((← get).validateContext context true)
  Op.lift (validateTerms terms)
  let c ← get
  match c.findRecord target generation with
  | none => throw (makeError .notFound "the reservation generation to amend does not exist")
  | some predecessor =>
    let fingerprint := amendmentFingerprint target generation terms
    match c.attempts[context.attempt]? with
    | some previous =>
      Op.refuseIf (previous.fingerprint ≠ fingerprint)
        (makeError .conflict "attempt identity was already used for a different amendment")
      pure (.inl (c.replayAmend previous predecessor))
    | none =>
      Op.refuseIf (isTerminal predecessor.state) ⟨.illegalTransition, ascii
        "a reservation in state " ++ predecessor.state.spelling ++ ascii " cannot be amended"⟩
      Op.refuseIf (terms.claimant ≠ predecessor.terms.claimant)
        (makeError .authorityRequired "an amendment must keep the same claimant identity")
      Op.refuseIf (terms.claimantGeneration < predecessor.terms.claimantGeneration)
        (makeError .fencedClaimant "the amendment carries a stale claimant generation")
      ensureClaimant terms.claimant terms.claimantGeneration now
      reconcile now
      let c ← get
      let predecessor := (c.findRecord target generation).getD predecessor
      let (policy, note) := c.policyFor terms.policy
      let binding ← Op.lift (c.resolveBinding terms)
      let intervals ← Op.lift
        (expandSeries terms.interval terms.recurrence policy.maxSeriesMembers.val)
      pure (.inr { now, context, target := ⟨target, generation⟩, terms, fingerprint, predecessor,
                   policy, note, binding, intervals })

/-! ## Amend: evaluation -/

/-- The generations an amendment supersedes: the target, or the live members of its series. -/
def supersededBy (c : Coordinator) (p : AmendPlan) : Result (List ReservationRecord) :=
  if p.predecessor.seriesMember then
    match c.seriesOf p.predecessor.series with
    | none => throw (makeError .corrupt "series member has no series record")
    | some series => pure ((c.seriesMembers series).filter fun r => !isTerminal r.state)
  else pure [p.predecessor]

/-! ## Amend: commit -/

/-- `make_successor`. -/
def makeSuccessor (c : Coordinator) (p : AmendPlan) (previous : ReservationRecord)
    (window : Interval) : ReservationRecord :=
  let state := committedState p.now window
  { previous with
    generation := previous.generation + 1
    terms := shifted p.terms window
    authority := c.authorityFor p.terms p.policy p.binding (p.target.generation + 1)
    predecessor := previous.id
    predecessorGeneration := previous.generation
    applicability := .current
    applicabilityReason := .current
    state
    activatedAt := if state = .active then p.now else 0
    committedAt := p.now
    stateChangedAt := p.now
    recallEffectiveAt := 0
    terminatedAt := 0
    stateReason := []
    lastProvenance := c.makeProvenance p.context c.predictedSequence p.now
    sequence := c.predictedSequence }

/-- A member the series has not had: a first generation under a derived identity. -/
def grownMember (c : Coordinator) (p : AmendPlan) (i : Nat) (window : Interval) :
    ReservationRecord :=
  { c.makeSuccessor p p.predecessor window with
    id := deriveMemberId p.predecessor.series (Word.cast 64 i)
    generation := 1
    predecessor := 0
    predecessorGeneration := 0 }

/-- Member `i` of an amended series: a successor of the live member at that place, or a new one. -/
def amendedMember (c : Coordinator) (p : AmendPlan) (superseded : List ReservationRecord) (i : Nat)
    (window : Interval) : ReservationRecord :=
  let member := match superseded[i]? with
    | some previous => c.makeSuccessor p previous window
    | none => c.grownMember p i window
  { member with
    seriesMember := true
    series := p.predecessor.series
    seriesIndex := Word.cast 64 i }

/-- The edge of an amendment. -/
def amendEdge (c : Coordinator) (p : AmendPlan) (record : ReservationRecord) : SupersessionEdge :=
  { predecessor := p.predecessor.id
    predecessorGeneration := p.predecessor.generation
    successor := record.id
    successorGeneration := record.generation
    recordedAt := p.now
    sequence := c.predictedSequence
    reason := sanitizeReason (if p.context.reason.isEmpty then ascii "amendment" else p.context.reason) }

/-- The companion transition of a series member other than the amended one. -/
def supersessionCompanion (c : Coordinator) (p : AmendPlan) (r : ReservationRecord) :
    StateMutation :=
  { id := r.id
    generation := r.generation
    fromState := r.state
    toState := .superseded
    at' := p.now
    reason := ascii "superseded by series generation " ++ toDecimal (1 + p.predecessor.generation).val
    provenance := c.makeProvenance p.context c.predictedSequence p.now }

/-- The next generation of an amended series. -/
def amendedSeries (c : Coordinator) (p : AmendPlan) (series : ReservationSeries)
    (successors : List ReservationRecord) : ReservationSeries :=
  { series with
    generation := series.generation + 1
    spec := p.terms.recurrence
    firstInterval := p.intervals.headD {}
    amount := p.terms.amount
    createdAt := p.now
    stateChangedAt := p.now
    predecessorSeriesGeneration := series.id
    predecessorGeneration := series.generation
    members := successors.map ReservationRecord.id
    lastProvenance := c.makeProvenance p.context c.predictedSequence p.now
    sequence := c.predictedSequence }

/-- A read past the end of `successors`: undefined in the source. -/
def outOfRange : Error := makeError .internal "undefined behaviour: successors[target_index]"

/-- The attempt an amendment retains. -/
def amendAttempt (p : AmendPlan) (record : ReservationRecord) (sequence : DurableSequence) :
    AttemptRecord :=
  attemptFor p.context p.fingerprint .committable record.key sequence p.terms.claimant p.now

/-- The durable record of an amendment of a series, and its successors in member order. -/
def amendSeriesMutation (c : Coordinator) (p : AmendPlan) (superseded : List ReservationRecord) :
    Result (ReservationMutation × List ReservationRecord) :=
  match c.seriesOf p.predecessor.series with
  | none => throw (makeError .corrupt "series member has no series record")
  | some series =>
    match superseded.findIdx? fun r => r.id = p.predecessor.id with
    | none => throw (makeError .corrupt "the amended member is not part of its own series")
    | some targetIndex =>
      let successors := p.intervals.mapIdx (c.amendedMember p superseded)
      match successors[targetIndex]? with
      | none => throw outOfRange
      | some record => pure
        ({ record
           members := successors.eraseIdx targetIndex
           supersedeRecord := true
           edge := some (c.amendEdge p record)
           companions := (superseded.filter fun r => r.id ≠ p.predecessor.id).map
             (c.supersessionCompanion p)
           series := some (c.amendedSeries p series successors)
           attempt := some (amendAttempt p record c.predictedSequence) }, successors)

/-- The durable record of an amendment, and its successors. -/
def amendMutation (c : Coordinator) (p : AmendPlan) (superseded : List ReservationRecord) :
    Result (ReservationMutation × List ReservationRecord) :=
  if p.predecessor.seriesMember then c.amendSeriesMutation p superseded
  else
    let record := c.makeSuccessor p p.predecessor (p.intervals.headD {})
    pure
      ({ record
         supersedeRecord := true
         edge := some (c.amendEdge p record)
         attempt := some (amendAttempt p record c.predictedSequence) }, [record])

/-- The record an amendment leaves of a generation it supersedes. -/
def AmendPlan.supersededForm (p : AmendPlan) (provenance : Provenance) (r : ReservationRecord) :
    ReservationRecord :=
  r.withState .superseded p.now
    (ascii "superseded by generation " ++ toDecimal (r.generation + 1).val) provenance

/-- A superseded generation leaves the index and the queues. -/
def supersede (p : AmendPlan) (provenance : Provenance) (previous : ReservationRecord) :
    Method Unit := do
  let c ← get
  match c.findRecord previous.id previous.generation with
  | none => pure ()
  | some r =>
    let moved := AmendPlan.supersededForm p provenance r
    set ((c.countState r.state .superseded).putRecord moved)
    indexErase moved
    modify fun c => c.syncQueues moved

/-- A successor is registered, indexed afresh and queued. -/
def installSuccessor (r : ReservationRecord) : Method Unit := do
  modify fun c => c.registerRecord r
  updateIndex r
  modify fun c => c.syncQueues r

/-- What the commit of `amend_locked` does in memory once its record is durable. -/
def projectAmend (p : AmendPlan) (superseded successors : List ReservationRecord)
    (mutation : ReservationMutation) (provenance : Provenance) (sequence : DurableSequence) :
    Method Unit := do
  Op.each (supersede p provenance) superseded
  modify fun c => { c with edges := c.edges ++ mutation.edge.toList }
  Op.each installSuccessor successors
  modify fun c => mutation.series.toList.foldl putSeries c
  modify fun c => c.rememberAttempt (amendAttempt p mutation.record sequence)
  keep

/-- The commit of `amend_locked`: the durable record, then its projection into memory. -/
def commitAmend (p : AmendPlan) (superseded successors : List ReservationRecord)
    (mutation : ReservationMutation) : Method Unit := do
  let provenance := (← get).makeProvenance p.context (← get).predictedSequence p.now
  let sequence ← appendPredicted (.reservationAmend mutation)
  projectAmend p superseded successors mutation provenance sequence

/-- What `amend_locked` does with an evaluation. -/
def finishAmend (p : AmendPlan) (dryRun : Bool) (superseded : List ReservationRecord) :
    Except (Interval × Assessment) (List Assessment) → Method AmendmentResult
  | .error (_, failure) => do
    Op.when (!dryRun) <| discard <| refuseAttempt fun sequence =>
      attemptFor p.context p.fingerprint failure.outcome p.target sequence p.terms.claimant p.now
    pure { predecessor := p.predecessor, report := failure }
  | .ok evaluations => do
    let report := (evaluations.headD {}).addNote p.note
    if dryRun then pure { predecessor := p.predecessor, report }
    else
      let (mutation, successors) ← Op.lift ((← get).amendMutation p superseded)
      commitAmend p superseded successors mutation
      let predecessor := ((← get).records[p.target]?).getD p.predecessor
      settle p.now
      pure { predecessor
             successor := mutation.record
             hasSeries := mutation.series.isSome
             series := mutation.series.getD {}
             members := successors
             report }

/-- `amend_locked`. -/
def amend (now : Timestamp) (context : RequestContext) (target : ReservationId)
    (generation : ReservationGeneration) (terms : ReservationTerms) (dryRun : Bool) :
    Method AmendmentResult := do
  match ← admitAmend now context target generation terms with
  | .inl replay => pure replay
  | .inr p => withSuspension do
    let superseded ← Op.lift ((← get).supersededBy p)
    Op.each suspend superseded
    let evaluation := (← get).evaluate p.terms p.binding p.policy p.intervals
    finishAmend p dryRun superseded evaluation

end Coordinator

end Brf
