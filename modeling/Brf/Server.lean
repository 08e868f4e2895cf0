import Brf.Lib.Hub
import Brf.Responses
import Brf.System

/-!
# The server

Model of `Session` of `tools/brf_coordinator.cpp`: one session a connection, each with a thread of its
own, around one coordinator.

* `handle` is what `dispatch` does with a request it has decoded: one call of the coordinator and the
  response made of what it returns. `dispatch` adds the decoding, and `reply` the shutdown that the loop
  answers itself.
* A turn of a session is one step of its loop: it takes a frame off the wire, serves it, or sends the
  response. The coordinator locks itself for the length of a call, so that a frame is served in one step;
  the threads may take their steps in any order.
* A `Moment` is what a call meets: the time, the faults of the store, and the counters that the state
  leaves out. A send may fail when so many bytes are out.
* The end of the process closes the sockets: a session may meet that anywhere (`Tick.close`).

Out of scope: the listener, and what `main` does before the first and after the last session.
-/

namespace Brf

open Brf.Lib

/-- What a process knows besides the state of its coordinator; it is fixed by `open`. -/
structure Host where
  store : Identity128 := 0
  recovery : RecoveryReport := {}
  recoveredEpoch : FabricEpoch := 0
  deriving DecidableEq, Repr

/-- What a call of the coordinator meets. -/
structure Moment where
  now : Timestamp := 0
  faults : List Bool := []
  counters : CoordinatorStats := {}
  deriving DecidableEq, Repr

/-- A call of the coordinator. -/
def Moment.call {α : Type} (moment : Moment) (m : Coordinator.Method α) : Coordinator.Method α := do
  modify fun c => c.withFaults moment.faults
  m

/-! ## Responses -/

/-- `status_of` with the outcome of everything that has been done. -/
def statusOf (message : String) : Response := .status { message := ascii message }

/-- `send_error`. -/
def refusal (outcome : AdmissionOutcome) (e : Error) : Response :=
  .error { code := e.code, outcome, message := e.message }

/-- The response to a lifecycle operation tells the reason of the state. -/
def stateReported (result : LifecycleResult) : Response :=
  .lifecycle { message := result.record.stateReason, result }

/-- The response of `kGetReservation`: a reservation that is not found is no error. -/
def foundResponse : Result ReservationRecord → Response
  | .ok record => .reservation { message := record.stateReason, found := true, record }
  | .error e => .reservation { outcome := .invalidRequest, message := e.message }

/-- The response of a query for reservations. -/
def listResponse : Result (List ReservationRecord) → Response
  | .ok records => .reservations { records }
  | .error e => .reservations { outcome := .invalidRequest, message := e.message }

/-- The response of `kQueryRemaining`. -/
def remainingResponse : Result RemainingCapacity → Response
  | .ok resource => .remaining { resources := [resource] }
  | .error e => .remaining { outcome := .invalidRequest, message := e.message }

/-- The response of `kReconcileAttempt`. -/
def reconciled (reconciliation : AttemptReconciliation) : Response :=
  .reconciliation
    { outcome := if reconciliation.committed then .committable else .invalidRequest
      reconciliation }

/-- The response of `kStats` and of `kDurableReplay`. -/
def statistics (host : Host) (moment : Moment) (c : Coordinator) : Response :=
  .stats
    { stats := c.coordinatorStats moment.counters
      recovery := host.recovery
      recoveredEpoch := host.recoveredEpoch }

/-- The response of `kHello`. -/
def greeting (host : Host) (c : Coordinator) : Response :=
  .hello
    { epoch := c.incarnation.epoch
      coordinatorBoot := c.incarnation.boot
      store := host.store }

/-! ## Requests -/

/-- The point bound of `kTimeline`. -/
def timelinePoints : Nat := 64

/-- `Session::dispatch` behind the decoding. -/
def handle (host : Host) (moment : Moment) : Message → Coordinator.Method Response
  | .hello _ => do pure (greeting host (← get))
  | .ingestCapacity r => do
    moment.call (Coordinator.ingestCapacity moment.now r.snapshot r.withdrawals r.context)
    pure (statusOf "capacity ingested")
  | .ingestPathAuthority r => do
    moment.call (Coordinator.ingestPaths moment.now r.snapshot r.context)
    pure (statusOf "path authority ingested")
  | .ingestPolicy r => do
    moment.call (Coordinator.ingestPolicy moment.now r.record r.context)
    pure (statusOf "policy ingested")
  | .registerClaimant r => do
    moment.call (Coordinator.registerClaimant moment.now r.claimant r.generation r.context)
    pure (statusOf "claimant registered")
  | .fence r => do
    moment.call (Coordinator.fence moment.now r.context r.claimant r.claimantGeneration r.boot
      r.session r.claimantWide)
    pure (statusOf "fence recorded")
  | .validate r => do
    let result ← moment.call (Coordinator.create moment.now r.context r.terms r.requestedId true
      r.consumeHolds)
    pure (.commit { outcome := result.report.outcome, message := result.report.explanation, result })
  | .commit r => do
    let result ← moment.call (Coordinator.create moment.now r.context r.terms r.requestedId r.dryRun
      r.consumeHolds)
    pure (.commit { outcome := result.report.outcome, message := result.report.explanation, result })
  | .amend r => do
    let result ← moment.call (Coordinator.amend moment.now r.context r.target r.targetGeneration
      r.terms r.dryRun)
    pure (.amendment
      { outcome := result.report.outcome, message := result.report.explanation, result })
  | .release r => do
    pure (stateReported (← moment.call
      (Coordinator.release moment.now r.context r.id r.generation)))
  | .revoke r => do
    pure (stateReported (← moment.call (Coordinator.revoke moment.now r.context r.id r.generation)))
  | .recall r => do
    pure (stateReported (← moment.call (Coordinator.recall moment.now r.context r.id r.generation
      r.effectiveAt r.grace r.force)))
  | .revalidate r => do
    let result ← moment.call (Coordinator.revalidate moment.now r.context r.id r.generation
      r.markStale)
    pure (.lifecycle { message := ascii "revalidated", result })
  | .reconcileAttempt r => do
    pure (reconciled (← moment.call (Coordinator.reconcileAttempt r.context r.attempt)))
  | .reconcileLifecycle r => do
    let result ← moment.call (Coordinator.reconcileLifecycle moment.now r.context)
    pure (.lifecycle { message := ascii "lifecycle reconciled", result })
  | .getReservation r => do
    pure (foundResponse (← Op.attempt (moment.call
      (Coordinator.getReservation moment.now r.id r.generation))))
  | .queryClaimant r => do
    pure (listResponse (← Op.attempt (moment.call
      (Coordinator.queryClaimant moment.now r.claimant r.includeTerminal))))
  | .queryResource r | .queryCommitted r => do
    pure (listResponse (← Op.attempt (moment.call
      (Coordinator.queryResource moment.now r.resource r.window r.includeTerminal))))
  | .queryRemaining r => do
    pure (remainingResponse (← Op.attempt (moment.call
      (Coordinator.queryRemaining moment.now r.resource r.window))))
  | .explainConflicts r => do
    let report ← moment.call (Coordinator.explainConflicts moment.now r.terms r.requestedId)
    pure (.report { outcome := report.outcome, report })
  | .timeline r => do
    let timeline ← moment.call (Coordinator.queryTimeline moment.now r.resource r.window
      timelinePoints)
    pure (.timeline { timeline })
  | .lineage r => do
    let lineage ← Op.lift ((← get).queryLineage r.id r.generation)
    pure (.lineage { lineage })
  | .overcommitReport => do pure (.overcommit { report := (← get).overcommitReport })
  | .stats | .durableReplay => do pure (statistics host moment (← get))
  | .holdAcquire r => do
    let hold ← moment.call (Coordinator.acquireHold moment.now r.context r.terms r.expiresAt)
    pure (.hold { message := ascii "hold acquired", hold })
  | .holdRelease r => do
    let hold ← moment.call (Coordinator.releaseHoldRequest moment.now r.context r.id r.generation)
    pure (.hold { message := ascii "hold released", hold })
  -- No hold is looked up: the response carries the default one.
  | .holdQuery => pure (.hold { message := ascii "holds" })
  | .sessionRelease r => do
    moment.call (Coordinator.releaseSession moment.now r.context)
    pure (statusOf "session released")

/-- The payload that a client of a request waits for. -/
def Message.answerKind : Message → Response.Kind
  | .hello _ => .hello
  | .ingestCapacity _ | .ingestPathAuthority _ | .ingestPolicy _ | .registerClaimant _ | .fence _
  | .sessionRelease _ => .status
  | .validate _ | .commit _ => .commit
  | .amend _ => .amendment
  | .release _ | .revoke _ | .recall _ | .revalidate _ | .reconcileLifecycle _ => .lifecycle
  | .reconcileAttempt _ => .reconciliation
  | .getReservation _ => .reservation
  | .queryClaimant _ | .queryResource _ | .queryCommitted _ => .reservations
  | .queryRemaining _ => .remaining
  | .explainConflicts _ => .report
  | .timeline _ => .timeline
  | .lineage _ => .lineage
  | .overcommitReport => .overcommit
  | .stats | .durableReplay => .stats
  | .holdAcquire _ | .holdRelease _ | .holdQuery => .hold

/-- The outcome of a request that is not decoded. -/
def undecodedOutcome (code : Word 16) : AdmissionOutcome :=
  if ((MessageType.ofCode? code).bind Message.reader).isSome then .invalidRequest else .unsupported

/-- The response to a request that is decoded, and the coordinator it leaves. -/
def respond (host : Host) (moment : Moment) (m : Message) (c : Coordinator) :
    Response × Coordinator :=
  match (handle host moment m).exec c with
  | (.ok response, c) => (response, c)
  | (.error e, c) => (refusal .invalidRequest e, c)

/-- `Session::dispatch`: the response to a frame, and the coordinator it leaves. -/
def dispatch (host : Host) (moment : Moment) (frame : Frame) (c : Coordinator) :
    Response × Coordinator :=
  match decodeMessage frame.type frame.payload with
  | .error e => (refusal (undecodedOutcome frame.type) e, c)
  | .ok m => respond host moment m c

/-- A frame asks the server to end. -/
def Frame.isShutdown (frame : Frame) : Bool := frame.type = MessageType.shutdown.code

/-- The response to a frame: a shutdown is accepted without a look at the coordinator. -/
def reply (host : Host) (moment : Moment) (frame : Frame) (c : Coordinator) :
    Response × Coordinator :=
  if frame.isShutdown then (statusOf "shutdown accepted", c) else dispatch host moment frame c

/-! ## Sessions -/

/-- Where the loop of `Session::serve` stands. -/
inductive Phase where
  | waiting
  | serving (frame : Frame)
  | answering (response : Response) (last : Bool)
  | ended
  deriving DecidableEq, Repr

/-- `Session`, and where its thread stands. -/
structure Session where
  socket : TcpSocket := {}
  phase : Phase := .waiting
  stop : Bool := false
  shutdownRequested : Bool := false
  deriving DecidableEq, Repr

/-- What a session meets: its thread goes on, or the process closes its socket. -/
inductive Tick where
  | proceed (moment : Moment) (failsAfter : Option Nat)
  | close
  deriving DecidableEq, Repr

/-- A frame that has been served. -/
structure Exchange where
  frame : Frame
  moment : Moment
  response : Response
  deriving DecidableEq, Repr

/-- `TcpSocket::close`. -/
def TcpSocket.close (s : TcpSocket) : TcpSocket := { s with connected := false }

/-- The frame of a response. -/
def Response.frame (r : Response) : Frame := { type := r.type.code, payload := r.payload }

/-- The frame of a request. -/
def Message.frame (m : Message) : Frame := { type := m.type.code, payload := m.payload }

/-- The bytes of a frame. -/
def Frame.bytes (frame : Frame) : Text := encodeFrame crc32c frame.type frame.payload

/-- What a list of frames puts on the wire. -/
def wire (frames : List Frame) : Text := frames.flatMap Frame.bytes

/-- The frame that answers an exchange. -/
def Exchange.answer (e : Exchange) : Frame := e.response.frame

namespace Session

/-- The loop has returned, and the thread closes the socket. -/
def leave (s : Session) (socket : TcpSocket) : Session :=
  { s with socket := socket.close, phase := .ended }

/-- The loop takes a frame off the wire. -/
def receive (s : Session) : Session :=
  match (TcpSocket.readFrame crc32c maxFrameBytes).exec s.socket with
  | (.ok frame, socket) => { s with socket, phase := .serving frame }
  | (.error _, socket) => s.leave socket

/-- The loop sends the response. -/
def send (s : Session) (response : Response) (last : Bool) (failsAfter : Option Nat) : Session :=
  match (TcpSocket.writeFrame crc32c response.type.code response.payload).exec s.socket with
  | (.error _, socket) => s.leave socket
  | (.ok _, socket) => match failsAfter with
    | some count =>
      s.leave { s.socket with outgoing := s.socket.outgoing ++ response.frame.bytes.take count }
    | none => if last || s.stop then s.leave socket else { s with socket, phase := .waiting }

/-- A turn of a session. -/
def act (host : Host) : Hub.Conduct Coordinator Session Tick Exchange
  | .close, s, c => ({ s with stop := true, socket := s.socket.close }, c, none)
  | .proceed moment failsAfter, s, c => match s.phase with
    | .waiting => (s.receive, c, none)
    | .serving frame =>
      let served := reply host moment frame c
      ({ s with
          phase := .answering served.1 frame.isShutdown
          shutdownRequested := s.shutdownRequested || frame.isShutdown },
        served.2, some { frame, moment, response := served.1 })
    | .answering response last => (s.send response last failsAfter, c, none)
    | .ended => (s, c, none)

/-- The session of a connection whose client sends these bytes. -/
def accept (bytes : Text) : Session := { socket := { incoming := bytes } }

end Session

/-! ## Servers -/

/-- A server: its coordinator and its sessions. -/
abbrev Server := Hub Coordinator Session

namespace Server

/-- A client connects, or a session takes a turn. -/
abbrev Turn := Hub.Turn Text Tick

/-- The server with its coordinator and no connections yet. -/
def opened (c : Coordinator) : Server := ⟨c, []⟩

/-- The server after a run. -/
def run (host : Host) (c : Coordinator) (turns : List Turn) : Server :=
  after (Hub.turn Session.accept (Session.act host)) (opened c) turns

/-- What the server has served, in the order in which the coordinator was called. -/
def served (host : Host) (c : Coordinator) (turns : List Turn) : List (Nat × Exchange) :=
  (opened c).trace Session.accept (Session.act host) turns

/-- The coordinator behind an exchange. -/
def perform (host : Host) (c : Coordinator) (e : Exchange) : Coordinator :=
  (reply host e.moment e.frame c).2

/-- The response of an exchange is the one its frame gets from this coordinator. -/
def Answers (host : Host) (c : Coordinator) (e : Exchange) : Prop :=
  e.response = (reply host e.moment e.frame c).1

end Server

end Brf
