import Brf.Coordinator

/-!
# Record bookkeeping

Model of `src/coordinator_records.cpp`, of the claimant and hold helpers of
`src/coordinator_core.cpp`, and of `transition_locked` (`src/coordinator_lifecycle.cpp`).

* `indexable` decides whether a record occupies capacity in the index; `syncIndex` makes the index
  agree with it for one record.
* `registerRecord` and `setState` are the only ways a record enters the store or changes state.
* `suspend` and `restore` are the two halves of `Suspension`; `withSuspension` is its scope: what is
  still suspended when the scope ends, also by an error, is put back.
-/

namespace Brf

open Brf.Lib

/-- The record part of `set_state_locked`. -/
def ReservationRecord.withState (r : ReservationRecord) (state : ReservationState)
    (at' : Timestamp) (reason : Text) (provenance : Provenance) : ReservationRecord :=
  { r with
    state
    stateChangedAt := at'
    stateReason := sanitizeReason reason
    lastProvenance := provenance
    terminatedAt := if isTerminal state then at' else r.terminatedAt }

/-- The record `mark_applicability_locked` leaves. -/
def ReservationRecord.marked (r : ReservationRecord) (applicability : Applicability)
    (reason : ApplicabilityReason) (at' : Timestamp) (sequence : DurableSequence) :
    ReservationRecord :=
  { r with
    applicability
    applicabilityReason := reason
    sequence
    stateChangedAt := at' }

/-- The record a companion transition leaves. -/
def StateMutation.applyTo (companion : StateMutation) (r : ReservationRecord) : ReservationRecord :=
  r.withState companion.toState companion.at' companion.reason companion.provenance

/-- The fields `release_hold_locked` sets. -/
def HoldRecord.release (h : HoldRecord) (at' : Timestamp) (reason : Text) : HoldRecord :=
  { h with released := true, releasedAt := at', releaseReason := reason }

namespace Coordinator

/-! ## Index maintenance -/

/-- `indexable_locked`. -/
def indexable (c : Coordinator) (r : ReservationRecord) : Bool :=
  r.consumes && r.applicability != .stale && !r.consumingInterval.empty &&
    r.authority.resources.all c.ledger.isCurrent

/-- The entry of a record on one bound resource. -/
def recordEntry (r : ReservationRecord) (ref : ResourceRef) : IndexEntry :=
  { kind := .reservation
    id := r.id
    holderGeneration := r.generation
    resource := ref.resource
    interval := r.consumingInterval
    amount := r.terms.amount
    guarantee := r.terms.guarantee
    state := r.state }

/-- `index_insert_locked`. -/
def indexInsert (r : ReservationRecord) : Method Unit :=
  if r.consumingInterval.empty then pure ()
  else onIndex (CapacityIndex.replaceAll .reservation r.id
    (r.authority.resources.map (recordEntry r)))

/-- `index_erase_locked`. -/
def indexErase (r : ReservationRecord) : Method Unit := do
  if (← get).index.contains .reservation r.id then
    onIndex (CapacityIndex.eraseAll .reservation r.id)

/-- `index_holds_locked`. -/
def indexHolds (c : Coordinator) (r : ReservationRecord) : Bool :=
  (c.index.findAll .reservation r.id).any fun e => e.holderGeneration = r.generation

/-- `sync_index_locked`. -/
def syncIndex (r : ReservationRecord) : Method Unit := do
  let c ← get
  let shouldIndex := c.indexable r
  let indexed := c.indexHolds r
  if shouldIndex && !indexed then indexInsert r
  else if !shouldIndex && indexed then indexErase r

/-- `update_index_locked`. -/
def updateIndex (r : ReservationRecord) : Method Unit := do
  Op.when ((← get).indexHolds r) (indexErase r)
  syncIndex r

/-- `current_record_locked`. -/
def currentRecord (c : Coordinator) (id : ReservationId) : Option ReservationRecord :=
  c.currentGeneration[id]?.bind fun generation => c.records[(⟨id, generation⟩ : ReservationKey)]?

/-- `find_record_locked`. -/
def findRecord (c : Coordinator) (id : ReservationId) (generation : ReservationGeneration) :
    Option ReservationRecord :=
  c.records[(⟨id, generation⟩ : ReservationKey)]?

/-- `rebuild_index_locked`. -/
def rebuildIndex : Method Unit := do
  modify fun c => { c with index := {} }
  Op.each (fun entry : ReservationKey × ReservationRecord => do
      let c ← get
      if c.currentGeneration[entry.1.id]? = some entry.1.generation then syncIndex entry.2)
    (← get).records.toList

/-! ## Queues -/

/-- `sync_queues_locked`. -/
def syncQueues (c : Coordinator) (r : ReservationRecord) : Coordinator :=
  let activation := TimeQueue.removeKey c.activationQueue r.key
  let expiry := TimeQueue.removeKey c.expiryQueue r.key
  let recalls := TimeQueue.removeKey c.recallQueue r.key
  if r.consumes then
    let window := r.consumingInterval
    { c with
      activationQueue :=
        if r.state = .committed then TimeQueue.emplace r.terms.interval.start r.key activation
        else activation
      expiryQueue :=
        if !window.empty then TimeQueue.emplace window.stop r.key expiry else expiry
      recallQueue :=
        if r.state = .recallPending && 0 < r.recallEffectiveAt.val then
          TimeQueue.emplace r.recallEffectiveAt r.key recalls
        else recalls }
  else { c with activationQueue := activation, expiryQueue := expiry, recallQueue := recalls }

/-- `rebuild_queues_locked`. -/
def rebuildQueues (c : Coordinator) : Coordinator :=
  c.records.values.foldl syncQueues { c with activationQueue := [], expiryQueue := [], recallQueue := [] }

/-! ## Records -/

/-- A record is stored under its own key. -/
def putRecord (c : Coordinator) (r : ReservationRecord) : Coordinator :=
  { c with records := c.records.insert r.key r }

/-- `register_record_locked`. -/
def registerRecord (c : Coordinator) (r : ReservationRecord) : Coordinator :=
  let existed := c.records[r.key]?.isSome
  let history := c.generations[r.id]?.getD []
  let history :=
    if r.generation ∈ history then history else sorted (history ++ [r.generation])
  let newer := match c.currentGeneration[r.id]? with
    | none => true
    | some current => current < r.generation
  { c with
    records := c.records.insert r.key r
    generations := c.generations.insert r.id history
    currentGeneration :=
      if newer then c.currentGeneration.insert r.id r.generation else c.currentGeneration
    historyCount := if !existed && isTerminal r.state then c.historyCount + 1 else c.historyCount
    liveCount := if !existed && !isTerminal r.state then c.liveCount + 1 else c.liveCount }

/-- The counters of `set_state_locked`. -/
def countState (c : Coordinator) (old new : ReservationState) : Coordinator :=
  if !isTerminal old && isTerminal new then
    { c with liveCount := c.liveCount - 1, historyCount := c.historyCount + 1 }
  else if isTerminal old && !isTerminal new then
    { c with liveCount := c.liveCount + 1, historyCount := c.historyCount - 1 }
  else c

/-- `set_state_locked` on a stored record. -/
def setState (c : Coordinator) (r : ReservationRecord) (state : ReservationState) (at' : Timestamp)
    (reason : Text) (provenance : Provenance) : Coordinator :=
  (c.countState r.state state).putRecord (r.withState state at' reason provenance)

/-- What `mark_applicability_locked` does in memory once the mutation is durable; the result is the
record it leaves. -/
def applyMark (r : ReservationRecord) (applicability : Applicability) (reason : ApplicabilityReason)
    (at' : Timestamp) (sequence : DurableSequence) : Method ReservationRecord := do
  let marked := r.marked applicability reason at' sequence
  modify fun c => (c.putRecord marked).syncQueues marked
  syncIndex marked
  pure marked

/-- `mark_applicability_locked`; the result is the record it leaves. -/
def markApplicability (r : ReservationRecord) (applicability : Applicability)
    (reason : ApplicabilityReason) (at' : Timestamp) : Method ReservationRecord := do
  if r.applicability = applicability && r.applicabilityReason = reason then pure r
  else
    let sequence ← append (.reservationApplicability
      { id := r.id, generation := r.generation, applicability, reason, at' })
    applyMark r applicability reason at' sequence

/-! ## Attempts -/

/-- The eviction loop of `remember_attempt_locked`. -/
def evictAttempts (maxAttempts : Nat) (attempts : Map AttemptId AttemptRecord) :
    List AttemptId → Map AttemptId AttemptRecord × List AttemptId
  | [] => (attempts, [])
  | oldest :: order =>
    if maxAttempts < order.length + 1 then evictAttempts maxAttempts (attempts.erase oldest) order
    else (attempts, oldest :: order)

/-- `remember_attempt_locked`. -/
def rememberAttempt (c : Coordinator) (attempt : AttemptRecord) : Coordinator :=
  let order :=
    if c.attempts[attempt.attempt]?.isSome then c.attemptOrder
    else c.attemptOrder ++ [attempt.attempt]
  let (attempts, attemptOrder) :=
    evictAttempts c.config.maxAttempts (c.attempts.insert attempt.attempt attempt) order
  { c with attempts, attemptOrder }

/-! ## Holds and claimants -/

/-- `release_hold_locked`. -/
def releaseHold (now : Timestamp) (id : HoldId) (reason : Text) : Method Unit := do
  match (← get).holds[id]? with
  | none => throw (makeError .notFound "hold does not exist")
  | some hold =>
    if hold.released then pure ()
    else
      modify fun c => { c with holds := c.holds.insert id (hold.release now (sanitizeReason reason)) }
      if (← get).index.contains .hold id then
        discard <| Op.attempt <| onIndex (CapacityIndex.eraseAll .hold id)

/-- The loops that release every live hold a predicate picks, ignoring their status. -/
def fenceHolds (now : Timestamp) (reason : Text) (picks : HoldRecord → Bool) : Method Unit := do
  let victims := (← get).holds.toList.filter fun entry => !entry.2.released && picks entry.2
  Op.each (fun entry => do discard <| Op.attempt <| releaseHold now entry.1 reason) victims

/-- `fence_holds_for_claimant_locked`. -/
def fenceHoldsForClaimant (now : Timestamp) (claimant : ClaimantId)
    (generation : ClaimantGeneration) (reason : Text) : Method Unit :=
  fenceHolds now reason fun h => h.claimant = claimant && h.claimantGeneration < generation

/-- `fence_holds_for_boot_locked`. -/
def fenceHoldsForBoot (now : Timestamp) (boot : PublisherBootId) (reason : Text) : Method Unit :=
  fenceHolds now reason fun h => h.boot = boot

/-- `fence_holds_for_session_locked`. -/
def fenceHoldsForSession (now : Timestamp) (session : SessionId) (reason : Text) : Method Unit :=
  fenceHolds now reason fun h => h.session = session

/-- `ensure_claimant_locked`. -/
def ensureClaimant (claimant : ClaimantId) (generation : ClaimantGeneration) (now : Timestamp) :
    Method Unit := do
  Op.refuseIf claimant.isNil (makeError .invalidIdentity "claimant identity must not be nil")
  match (← get).claimants[claimant]? with
  | none =>
    discard <| append (.claimantRegistration { claimant, generation, at' := now })
    modify fun c => { c with claimants := c.claimants.insert claimant generation }
  | some registered =>
    if generation < registered then
      throw ⟨.fencedClaimant, ascii "claimant generation " ++ toDecimal generation.val ++
        ascii " is stale; the registered generation is " ++ toDecimal registered.val⟩
    else if registered < generation then
      discard <| append (.claimantRegistration { claimant, generation, at' := now })
      modify fun c => { c with claimants := c.claimants.insert claimant generation }
      fenceHoldsForClaimant now claimant generation (ascii "claimant generation advanced")

/-! ## Evaluation suspension -/

/-- `Suspension::suspend`: the entries of one record generation leave the index. -/
def suspend (r : ReservationRecord) : Method Unit := do
  let held := ((← get).index.findAll .reservation r.id).filter fun e =>
    e.holderGeneration = r.generation
  Op.each (fun e => do
    modify fun c => { c with suspended := c.suspended ++ [e] }
    onIndex (CapacityIndex.erase .reservation e.id e.holderGeneration e.resource)) held

/-- `Suspension::suspend_hold`. -/
def suspendHold (id : HoldId) : Method Unit := do
  let held := (← get).index.findAll .hold id
  Op.each (fun e => do
    modify fun c => { c with suspended := c.suspended ++ [e] }
    onIndex (CapacityIndex.erase .hold e.id e.holderGeneration e.resource)) held

/-- `Suspension::restore`: entry by entry; an entry that cannot be inserted is reported and left. -/
def restore : Method Unit := do
  let entries := (← get).suspended
  modify fun c => { c with suspended := [] }
  Op.each (fun e => do discard <| Op.attempt <| onIndex (CapacityIndex.insert e)) entries

/-- `Suspension::keep`: nothing is put back. -/
def keep : Method Unit := modify fun c => { c with suspended := [] }

/-- The scope of a `Suspension`: its destructor restores what was not kept. -/
def withSuspension {α : Type} (body : Method α) : Method α := do
  let result ← Op.attempt body
  restore
  Op.lift result

/-! ## Transitions -/

/-- The fingerprint `transition_locked` gives an attempt. -/
def transitionFingerprint (r : ReservationRecord) (target : ReservationState) : Identity128 :=
  fingerprint128 (ascii "state|" ++ r.id.toHex ++ ascii "|" ++ toDecimal r.generation.val ++
    ascii "|" ++ toDecimal (Enumeration.index target))

/-- The attempt `transition_locked` records; `sequence` is what only the live store learns. -/
def transitionAttempt (r : ReservationRecord) (target : ReservationState) (at' : Timestamp)
    (context : RequestContext) (sequence : DurableSequence) : AttemptRecord :=
  { attempt := context.attempt
    fingerprint := transitionFingerprint r target
    outcome := .committable
    reservation := r.id
    generation := r.generation
    resultSequence := sequence
    claimant := r.terms.claimant
    at' }

/-- The mutation `transition_locked` journals; its attempt carries no sequence. -/
def transitionMutation (r : ReservationRecord) (target : ReservationState) (at' : Timestamp)
    (reason : Text) (context : RequestContext) (recallEffectiveAt : Timestamp) : StateMutation :=
  { id := r.id
    generation := r.generation
    fromState := r.state
    toState := target
    at'
    reason := sanitizeReason reason
    recallEffectiveAt
    attempt :=
      if context.attempt.isNil then none else some (transitionAttempt r target at' context 0) }

/-- The record `transition_locked` leaves. -/
def transitioned (c : Coordinator) (r : ReservationRecord) (target : ReservationState)
    (at' : Timestamp) (reason : Text) (context : RequestContext) (recallEffectiveAt : Timestamp)
    (sequence : DurableSequence) : ReservationRecord :=
  let recalled := if 0 < recallEffectiveAt.val then { r with recallEffectiveAt } else r
  { recalled.withState target at' reason (c.makeProvenance context sequence at') with sequence }

/-- What `transition_locked` does in memory once the mutation is durable; the result is the record
it leaves. -/
def applyTransition (r : ReservationRecord) (target : ReservationState) (at' : Timestamp)
    (reason : Text) (context : RequestContext) (recallEffectiveAt : Timestamp)
    (sequence : DurableSequence) : Method ReservationRecord := do
  let moved := (← get).transitioned r target at' reason context recallEffectiveAt sequence
  modify fun c => (c.countState r.state target).putRecord moved
  (if target = .recallPending then updateIndex moved else syncIndex moved)
  modify fun c => c.syncQueues moved
  pure moved

/-- `transition_locked`: the record it leaves and the attempt a caller remembers. -/
def transition (r : ReservationRecord) (target : ReservationState) (at' : Timestamp) (reason : Text)
    (context : RequestContext) (recallEffectiveAt : Timestamp) :
    Method (ReservationRecord × AttemptRecord) := do
  let sequence ← append
    (.reservationState (transitionMutation r target at' reason context recallEffectiveAt))
  let moved ← applyTransition r target at' reason context recallEffectiveAt sequence
  pure (moved, if context.attempt.isNil then {} else transitionAttempt r target at' context sequence)

end Coordinator

end Brf
