import Brf.Records

/-!
# Time reconciliation, archival and overcommit detection

Model of `reconcile_locked`, `release_terminal_history_locked` and `detect_overcommit_locked`
(`src/coordinator_lifecycle.cpp`).

* `reconcile now` derives every transition that the clock has made due: the queues only say which
  records to look at, the decision is made from the record.
* `releaseTerminalHistory` moves the oldest terminal records into the archive, which is keyed by the
  reservation identity alone.
* `detectOvercommit` compares what a resource owes with its ceiling and opens or closes its
  emergency entry.
-/

namespace Brf

open Brf.Lib

/-- `commits_as_active`: the interval is open. -/
def commitsAsActive (now : Timestamp) (window : Interval) : Bool :=
  window.start ≤ now && now < window.stop

/-- `Interval{0, kMaxTimestampNs}`. -/
def horizon : Interval := ⟨0, I64.wrap maxTimestampNs⟩

namespace Coordinator

/-! ## Time -/

/-- A revocation is counted. -/
def countRevocation (c : Coordinator) : Coordinator :=
  { c with stats := { c.stats with revocations := c.stats.revocations + 1 } }

/-- An expiry is counted. -/
def countExpiry (c : Coordinator) : Coordinator :=
  { c with stats := { c.stats with expiries := c.stats.expiries + 1 } }

/-- The part of a reconciliation turn that opens the interval of a committed record. -/
def activateDue (now : Timestamp) (context : RequestContext) (r : ReservationRecord) :
    Method ReservationRecord := do
  if r.state = .committed && commitsAsActive now r.terms.interval then
    let (r, _) ← transition r .active now (ascii "interval opened") context 0
    pure r
  else pure r

/-- The part of a reconciliation turn that ends a consuming record whose interval is over. -/
def endDue (now : Timestamp) (context : RequestContext) (r : ReservationRecord) : Method Unit := do
  if r.consumes && (r.consumingInterval.empty || r.consumingInterval.stop ≤ now) then
    if r.state = .recallPending then
      discard <| transition r .revoked now
        (ascii "recall effect reached at the committed interval end") context 0
      modify countRevocation
    else
      discard <| transition r .expired now (ascii "committed interval elapsed") context 0
      modify countExpiry

/-- One turn of the loop of `reconcile_locked`. -/
def reconcileTurn (now : Timestamp) (context : RequestContext) (key : ReservationKey) :
    Method Unit := do
  match (← get).records[key]? with
  | none => pure ()
  | some r =>
    if r.state = .recallPending && 0 < r.recallEffectiveAt.val && r.recallEffectiveAt ≤ now then
      discard <| transition r .revoked now (ascii "recall effect reached") context 0
      modify countRevocation
    else
      let r ← activateDue now context r
      endDue now context r

/-- The keys `reconcile_locked` looks at, in order and without repetition. -/
def dueWork (c : Coordinator) (now : Timestamp) : List ReservationKey :=
  (sorted (TimeQueue.due c.activationQueue now ++ TimeQueue.due c.expiryQueue now ++
    TimeQueue.due c.recallQueue now)).dedup

/-- `reconcile_locked`. -/
def reconcile (now : Timestamp) : Method Unit := do
  let c ← get
  Op.each (reconcileTurn now (c.internalContext "time reconciliation")) (c.dueWork now)
  let expired := (← get).holds.toList.filter fun entry =>
    !entry.2.released && entry.2.expiresAt ≤ now
  Op.each (fun entry => releaseHold now entry.1 (ascii "hold deadline reached")) expired

/-! ## Archival -/

/-- The terminal records of the store, oldest sequence first. -/
def terminalHistory (c : Coordinator) : List (ReservationKey × ReservationRecord) :=
  (c.records.toList.filter fun entry => isTerminal entry.2.state).insertionSort fun a b =>
    if a.2.sequence ≠ b.2.sequence then a.2.sequence < b.2.sequence else a.1 ≤ b.1

/-- The keys one call of `release_terminal_history_locked` archives. -/
def retireBatch (c : Coordinator) : List ReservationKey :=
  (c.terminalHistory.take (min (c.historyCount - c.config.maxHistoryRecords) 64)).map (·.1)

/-- The archived form of a record. -/
def archived (r : ReservationRecord) (now : Timestamp) : ReservationRecord :=
  { r with
    state := .retired
    stateChangedAt := now
    stateReason := ascii "retired from live history into the archival record set" }

/-- One record leaves the store for the archive. -/
def retireRecord (now : Timestamp) (c : Coordinator) (key : ReservationKey) : Coordinator :=
  match c.records[key]? with
  | none => c
  | some r => { c with
      retired := c.retired.insert key.id (archived r now)
      records := c.records.erase key
      historyCount := c.historyCount - 1 }

/-- `release_terminal_history_locked`. -/
def releaseTerminalHistory (now : Timestamp) : Method Unit := do
  let batch := (← get).retireBatch
  if batch ≠ [] then
    discard <| append (.retire
      { ids := batch.map ReservationKey.id
        generations := batch.map ReservationKey.generation
        at' := now })
    modify fun c => batch.foldl (retireRecord now) c

/-! ## Overcommit -/

/-- The record is bound to the resource at generations that are not all in force. -/
def boundStale (c : Coordinator) (resource : ResourceName) (r : ReservationRecord) : Bool :=
  (r.authority.resources.any fun ref => ref.resource = resource) &&
    !r.authority.resources.all c.ledger.isCurrent

/-- The obligations on a resource that no live generation accounts for. -/
def outstanding (c : Coordinator) (resource : ResourceName) : List ReservationRecord :=
  c.records.values.filter fun r =>
    r.consumes && c.boundStale resource r && !r.consumingInterval.empty

/-- The peak `detect_overcommit_locked` compares with the ceiling. -/
def obligationPeak (c : Coordinator) (resource : ResourceName) : Bandwidth :=
  let peak := c.index.peakCommitted resource horizon
  let stale := c.outstanding resource
  if stale.isEmpty then peak
  else
    let stalePeak := (stale.foldl (fun (x : IntervalIndex) r =>
      x.add r.consumingInterval r.terms.amount) {}).peak horizon
    if peak < stalePeak then stalePeak else peak

/-- The emergency entry `detect_overcommit_locked` writes. -/
def overcommitMutation (resource : ResourceName) (entry : CapacityEntry) (peak : Bandwidth)
    (now : Timestamp) (resolved : Bool) : OvercommitMutation :=
  { resource
    generation := entry.capacity.generation
    committedPeak := peak
    ceiling := if entry.withdrawn then 0 else entry.capacity.committableCeiling
    window := horizon
    at' := now
    resolved }

/-- The resource has an emergency entry that is not resolved. -/
def emergency (c : Coordinator) (resource : ResourceName) : Bool :=
  c.overcommit[resource]?.any fun state => !state.resolved

/-- An emergency entry becomes durable, then visible. -/
def recordOvercommit (mutation : OvercommitMutation) : Method Unit := do
  discard <| append (.overcommit mutation)
  modify fun c => { c with
    overcommit := c.overcommit.insert mutation.resource { mutation, resolved := mutation.resolved } }

/-- `detect_overcommit_locked`. -/
def detectOvercommit (resource : ResourceName) (now : Timestamp) : Method Unit := do
  let c ← get
  match c.ledger[resource]? with
  | none => pure ()
  | some entry =>
    let peak := c.obligationPeak resource
    let mutation := overcommitMutation resource entry peak now
    let isOver := (mutation false).ceiling < peak
    if !isOver && c.emergency resource then recordOvercommit (mutation true)
    else if isOver && !c.emergency resource then recordOvercommit (mutation false)

end Coordinator

end Brf
