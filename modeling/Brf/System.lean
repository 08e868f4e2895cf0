import Brf.Lib.Run
import Brf.Query

/-!
# The system

The coordinator together with its directory: `ReservationCoordinator::open`
(`src/coordinator_core.cpp`), every public operation, and the loss of the process.

* A system is `down` with a directory, or `up` with a coordinator that holds the directory open.
* An `Action` is a request and the faults of the store calls it makes. `stop` ends the process
  between two operations; a crash inside an operation is that operation with faults from the crash on,
  followed by `stop`.
* `step` is total: a request to a system that is down, and `open` on one that is up, change nothing.
-/

namespace Brf

open Brf.Lib

namespace Coordinator

/-- The bounds `open` checks before anything else. -/
def checkConfig (config : Config) : Result Unit :=
  refuse (config.maxLiveReservations = 0 || config.maxAttempts = 0) .invalidArgument
    "coordinator bounds must be non-zero"

/-- `open` after recovery: the epoch advances durably, then time and applicability catch up. -/
def bootUp (boot : Identity128) (now : Timestamp) : Method Unit := do
  let c ← get
  Op.refuseIf (c.incarnation.epoch.val = 18446744073709551615)
    (makeError .overflow "fabric epoch is exhausted")
  let epoch := c.incarnation.epoch + 1
  discard <| append (.fabricBoot { epoch, coordinatorBoot := boot, at' := now })
  modify fun c => { c with incarnation := { epoch, boot } }
  reconcile now
  refreshApplicability now true
  releaseTerminalHistory now

/-- The coordinator with the faults of the coming store calls. -/
def withFaults (c : Coordinator) (faults : List Bool) : Coordinator :=
  { c with store := { c.store with faults } }

end Coordinator

/-- A public operation with its arguments and the clock it reads. -/
inductive Request where
  | ingestCapacity (now : Timestamp) (snapshot : CapacitySnapshot)
      (withdrawals : List ResourceName) (context : RequestContext)
  | ingestPaths (now : Timestamp) (snapshot : PathAuthoritySnapshot) (context : RequestContext)
  | ingestPolicy (now : Timestamp) (record : PolicyRecord) (context : RequestContext)
  | registerClaimant (now : Timestamp) (claimant : ClaimantId) (generation : ClaimantGeneration)
      (context : RequestContext)
  | fence (now : Timestamp) (context : RequestContext) (claimant : ClaimantId)
      (generation : ClaimantGeneration) (boot : PublisherBootId) (session : SessionId)
      (claimantWide : Bool)
  | create (now : Timestamp) (context : RequestContext) (terms : ReservationTerms)
      (requestedId : ReservationId) (dryRun : Bool) (consumeHolds : List HoldId)
  | amend (now : Timestamp) (context : RequestContext) (target : ReservationId)
      (generation : ReservationGeneration) (terms : ReservationTerms) (dryRun : Bool)
  | release (now : Timestamp) (context : RequestContext) (id : ReservationId)
      (generation : ReservationGeneration)
  | «recall» (now : Timestamp) (context : RequestContext) (id : ReservationId)
      (generation : ReservationGeneration) (effectiveAt : Timestamp) (grace : Duration)
      (force : Bool)
  | revoke (now : Timestamp) (context : RequestContext) (id : ReservationId)
      (generation : ReservationGeneration)
  | revalidate (now : Timestamp) (context : RequestContext) (id : ReservationId)
      (generation : ReservationGeneration) (markStale : Bool)
  | reconcileLifecycle (now : Timestamp) (context : RequestContext)
  | reconcileAttempt (context : RequestContext) (attempt : AttemptId)
  | acquireHold (now : Timestamp) (context : RequestContext) (terms : ReservationTerms)
      (expiresAt : Timestamp)
  | releaseHold (now : Timestamp) (context : RequestContext) (id : HoldId)
      (generation : HoldGeneration)
  | releaseSession (now : Timestamp) (context : RequestContext)
  | resolveOvercommit (now : Timestamp) (context : RequestContext) (resource : ResourceName)
      (resolution : Coordinator.OvercommitResolution)
  | getReservation (now : Timestamp) (id : ReservationId) (generation : ReservationGeneration)
  | queryClaimant (now : Timestamp) (claimant : ClaimantId) (includeTerminal : Bool)
  | queryResource (now : Timestamp) (resource : ResourceName) (window : Interval)
      (includeTerminal : Bool)
  | queryRemaining (now : Timestamp) (resource : ResourceName) (window : Interval)
  | explainConflicts (now : Timestamp) (terms : ReservationTerms) (candidate : ReservationId)
  | compact
  | flush
  | beginShutdown (now : Timestamp)
  deriving DecidableEq

namespace Request

/-- The operation of a request; what it returns besides its status is left out. -/
def perform : Request → Coordinator.Method Unit
  | ingestCapacity now snapshot withdrawals context =>
    Coordinator.ingestCapacity now snapshot withdrawals context
  | ingestPaths now snapshot context => Coordinator.ingestPaths now snapshot context
  | ingestPolicy now record context => Coordinator.ingestPolicy now record context
  | registerClaimant now claimant generation context =>
    Coordinator.registerClaimant now claimant generation context
  | fence now context claimant generation boot session claimantWide =>
    Coordinator.fence now context claimant generation boot session claimantWide
  | create now context terms requestedId dryRun consumeHolds =>
    discard <| Coordinator.create now context terms requestedId dryRun consumeHolds
  | amend now context target generation terms dryRun =>
    discard <| Coordinator.amend now context target generation terms dryRun
  | release now context id generation =>
    discard <| Coordinator.release now context id generation
  | «recall» now context id generation effectiveAt grace force =>
    discard <| Coordinator.recall now context id generation effectiveAt grace force
  | revoke now context id generation => discard <| Coordinator.revoke now context id generation
  | revalidate now context id generation markStale =>
    discard <| Coordinator.revalidate now context id generation markStale
  | reconcileLifecycle now context => discard <| Coordinator.reconcileLifecycle now context
  | reconcileAttempt context attempt => discard <| Coordinator.reconcileAttempt context attempt
  | acquireHold now context terms expiresAt =>
    discard <| Coordinator.acquireHold now context terms expiresAt
  | releaseHold now context id generation =>
    discard <| Coordinator.releaseHoldRequest now context id generation
  | releaseSession now context => Coordinator.releaseSession now context
  | resolveOvercommit now context resource resolution =>
    Coordinator.resolveOvercommit now context resource resolution
  | getReservation now id generation => discard <| Coordinator.getReservation now id generation
  | queryClaimant now claimant includeTerminal =>
    discard <| Coordinator.queryClaimant now claimant includeTerminal
  | queryResource now resource window includeTerminal =>
    discard <| Coordinator.queryResource now resource window includeTerminal
  | queryRemaining now resource window => discard <| Coordinator.queryRemaining now resource window
  | explainConflicts now terms candidate =>
    discard <| Coordinator.explainConflicts now terms candidate
  | compact => Coordinator.compact
  | flush => Coordinator.flush
  | beginShutdown now => Coordinator.beginShutdown now

end Request

/-- What happens to a system: a request, the start or the end of a process. -/
inductive Event where
  | request (request : Request)
  | start (config : Config) (boot : Identity128) (now : Timestamp)
  | stop
  deriving DecidableEq

/-- An event and the faults of the store calls it makes. -/
structure Action where
  event : Event
  faults : List Bool := []
  deriving DecidableEq

/-- The coordinator and its directory. -/
inductive System where
  | down (disk : Disk)
  | up (c : Coordinator)

namespace System

/-- The directory. -/
def disk : System → Disk
  | down disk => disk
  | up c => c.store.disk

/-- A request to a running coordinator: its status and the state it leaves. -/
def serve (c : Coordinator) (request : Request) (faults : List Bool) :
    Except Error Unit × Coordinator :=
  request.perform.exec (c.withFaults faults)

/-- `ReservationCoordinator::open`. -/
def start (config : Config) (boot : Identity128) (now : Timestamp) (faults : List Bool)
    (disk : Disk) : System :=
  match Coordinator.checkConfig config, Coordinator.recover config disk faults with
  | .ok (), .ok c =>
    match (Coordinator.bootUp boot now).exec c with
    | (.ok (), c) => up c
    | (.error _, c) => down c.store.disk
  | _, _ => down disk

/-- One action. -/
def step : System → Action → System
  | up c, { event := .request request, faults } => up (serve c request faults).2
  | up c, { event := .stop, .. } => down c.store.disk
  | up c, { event := .start .., .. } => up c
  | down disk, { event := .start config boot now, faults } => start config boot now faults disk
  | down disk, _ => down disk

/-- The system before the first start: an empty directory. -/
def initial : System := down {}

/-- The state after a run. -/
abbrev run (as : List Action) : System := after step initial as

end System

end Brf
