import Brf.MessageLaws
import Brf.ProtocolLaws
import Brf.ResponseLaws
import Brf.Server

/-!
# What a server does for its clients

The threads of the sessions take their steps in any order, and their connections may fail.

* `handle_snd` says what a request does to the coordinator: what its operation does (`Message.operation`).
* `readFrame_eq_ok` says what a socket has read, and `Session.Stands` how far a session has come with
  what its client sends: the invariant of its turns.

Results: `server_linearized` (the coordinator has been called by one request after the other, each has its
response from the state it met, and each session has answered its own requests in turn), and
`requests_served_in_turn` (what a client of well-formed requests gets).
-/

namespace Brf

open Brf.Lib

/-! ## What a request does -/

/-- The public operation behind a request, if there is one that may change the state. A timeline
reconciles, and so does the lookup of a reservation. -/
def Message.operation (now : Timestamp) : Message → Option Request
  | .hello _ | .lineage _ | .overcommitReport | .stats | .durableReplay | .holdQuery => none
  | .ingestCapacity r => some (.ingestCapacity now r.snapshot r.withdrawals r.context)
  | .ingestPathAuthority r => some (.ingestPaths now r.snapshot r.context)
  | .ingestPolicy r => some (.ingestPolicy now r.record r.context)
  | .registerClaimant r => some (.registerClaimant now r.claimant r.generation r.context)
  | .fence r =>
    some (.fence now r.context r.claimant r.claimantGeneration r.boot r.session r.claimantWide)
  | .validate r => some (.create now r.context r.terms r.requestedId true r.consumeHolds)
  | .commit r => some (.create now r.context r.terms r.requestedId r.dryRun r.consumeHolds)
  | .amend r => some (.amend now r.context r.target r.targetGeneration r.terms r.dryRun)
  | .release r => some (.release now r.context r.id r.generation)
  | .revoke r => some (.revoke now r.context r.id r.generation)
  | .recall r => some (.recall now r.context r.id r.generation r.effectiveAt r.grace r.force)
  | .revalidate r => some (.revalidate now r.context r.id r.generation r.markStale)
  | .reconcileAttempt r => some (.reconcileAttempt r.context r.attempt)
  | .reconcileLifecycle r => some (.reconcileLifecycle now r.context)
  | .getReservation r => some (.getReservation now r.id r.generation)
  | .queryClaimant r => some (.queryClaimant now r.claimant r.includeTerminal)
  | .queryResource r | .queryCommitted r =>
    some (.queryResource now r.resource r.window r.includeTerminal)
  | .queryRemaining r => some (.queryRemaining now r.resource r.window)
  | .explainConflicts r => some (.explainConflicts now r.terms r.requestedId)
  | .timeline _ => some (.getReservation now 0 0)
  | .holdAcquire r => some (.acquireHold now r.context r.terms r.expiresAt)
  | .holdRelease r => some (.releaseHold now r.context r.id r.generation)
  | .sessionRelease r => some (.releaseSession now r.context)

namespace Coordinator

/-- A lookup leaves what the reconciliation leaves. -/
theorem getReservation_snd (now : Timestamp) (id : ReservationId)
    (generation : ReservationGeneration) (c : Coordinator) :
    ((getReservation now id generation).exec c).2 = ((reconcile now).exec c).2 := by
  unfold getReservation
  refine Op.exec_bind_still _ (fun _ t => ?_) c
  rw [Op.exec_get_bind]
  dsimp only
  generalize Option.or _ t.retired[id]? = found
  cases found <;> rfl

theorem queryTimeline_snd (now : Timestamp) (resource : ResourceName) (window : Interval)
    (maxPoints : Nat) (c : Coordinator) :
    ((queryTimeline now resource window maxPoints).exec c).2 = ((reconcile now).exec c).2 := by
  unfold queryTimeline
  refine Op.exec_bind_still _ (fun _ t => ?_) c
  rw [Op.exec_bind_still _ fun _ t => ?_, Op.exec_lift_snd]
  rw [Op.exec_bind_still _ fun _ t => ?_, Op.exec_refuseIf]
  rfl

end Coordinator

/-- The state that a request leaves is the one its operation leaves. -/
theorem handle_snd (host : Host) (moment : Moment) (m : Message) (c : Coordinator) :
    ((handle host moment m).exec c).2 = match m.operation moment.now with
      | none => c
      | some request => (System.serve c request moment.faults).2 := by
  cases m with
  | hello _ | overcommitReport | stats | durableReplay | holdQuery => rfl
  | lineage r =>
    unfold handle
    rw [Op.exec_get_bind, Op.exec_bind_pure, Op.exec_lift_snd]
    rfl
  | timeline r =>
    unfold handle
    refine (Op.exec_bind_pure _ _ c).trans ?_
    exact (Coordinator.queryTimeline_snd _ _ _ _ _).trans
      ((Op.exec_discard_snd _ _).trans (Coordinator.getReservation_snd _ _ _ _)).symm
  | ingestCapacity _ | ingestPathAuthority _ | ingestPolicy _ | registerClaimant _ | fence _
  | sessionRelease _ => exact Op.exec_bind_pure _ _ c
  | getReservation _ | queryClaimant _ | queryResource _ | queryCommitted _ | queryRemaining _ =>
    refine (Op.exec_bind_pure _ _ c).trans ((Op.exec_attempt_snd _ c).trans ?_)
    exact (Op.exec_discard_snd _ _).symm
  | _ => exact (Op.exec_bind_pure _ _ c).trans (Op.exec_discard_snd _ _).symm

/-- What is served is an operation of the system, or nothing. -/
theorem perform_reachable (host : Host) (c : Coordinator) (e : Exchange) :
    ∃ actions, after System.step (.up c) actions = .up (Server.perform host c e) := by
  unfold Server.perform reply
  split
  · exact ⟨[], rfl⟩
  · unfold dispatch
    split
    · exact ⟨[], rfl⟩
    next m _ =>
      have left : (respond host e.moment m c).2 = ((handle host e.moment m).exec c).2 := by
        unfold respond
        rcases (handle host e.moment m).exec c with ⟨_ | _, _⟩ <;> rfl
      rw [left, handle_snd]
      cases m.operation e.moment.now with
      | none => exact ⟨[], rfl⟩
      | some request => exact ⟨[{ event := .request request, faults := e.moment.faults }], rfl⟩

/-- The end of a list of exchanges is a state that the system can reach. -/
theorem performs_reachable (host : Host) (c : Coordinator) (es : List Exchange) :
    ∃ actions, after System.step (.up c) actions = .up (after (Server.perform host) c es) := by
  induction es generalizing c with
  | nil => exact ⟨[], rfl⟩
  | cons e es ih =>
    obtain ⟨first, one⟩ := perform_reachable host c e
    obtain ⟨rest, others⟩ := ih (Server.perform host c e)
    exact ⟨first ++ rest, by rw [after_append, one, others, after_cons]⟩

/-! ## Sockets -/

namespace TcpSocket

/-- What has been received was there. -/
theorem receiveExact_eq_ok {size : Nat} {s t : TcpSocket} {bytes : Text}
    (run : (receiveExact size).exec s = (.ok bytes, t)) :
    s.incoming = bytes ++ t.incoming ∧ bytes.length = size ∧ t.outgoing = s.outgoing := by
  unfold receiveExact at run
  rw [Op.exec_get_bind, Op.exec_bind_of_ok (Op.exec_set _ _)] at run
  obtain ⟨enough, run⟩ := Op.exec_refuseIf_bind_ok run
  obtain ⟨same, rfl⟩ := Prod.mk.inj run
  obtain rfl := Except.ok.inj same
  have long : size ≤ s.incoming.length := by simpa using enough
  exact ⟨(List.take_append_drop size s.incoming).symm, by simp [long], rfl⟩

theorem readFrame_eq_ok {s t : TcpSocket} {frame : Frame}
    (run : (readFrame crc32c maxFrameBytes).exec s = (.ok frame, t)) :
    s.incoming = frame.bytes ++ t.incoming ∧ frame.bytes.length ≤ maxFrameBytes ∧
      t.outgoing = s.outgoing := by
  unfold readFrame at run
  rw [Op.exec_get_bind] at run
  obtain ⟨-, run⟩ := Op.exec_refuseIf_bind_ok run
  obtain ⟨top, s₁, first, run⟩ := Op.exec_bind_ok run
  obtain ⟨split₁, size₁, kept₁⟩ := receiveExact_eq_ok first
  obtain ⟨h, parsed, run⟩ := Op.exec_lift_bind_ok run
  obtain ⟨payload, s₂, second, run⟩ := Op.exec_bind_ok run
  obtain ⟨split₂, size₂, kept₂⟩ := receiveExact_eq_ok second
  obtain ⟨sound, run⟩ := Op.exec_refuseIf_bind_ok run
  obtain ⟨same, rfl⟩ := Prod.mk.inj run
  obtain rfl := Except.ok.inj same
  obtain ⟨h', none', spelled⟩ := exists_header (le_of_eq size₁.symm)
  obtain rfl : none' = [] := by
    rw [← List.length_eq_zero_iff]
    have := congrArg List.length spelled
    rw [List.length_append, FrameHeader.bytes_length, size₁] at this
    unfold frameHeaderBytes at this
    omega
  rw [List.append_nil] at spelled
  rw [spelled, headerReader_bytes] at parsed
  simp only [check_bind_eq_ok, refuse_eq_ok] at parsed
  obtain ⟨magic, bounds, version, found⟩ := parsed
  obtain rfl := Except.ok.inj found
  simp only [Bool.or_eq_false_iff, decide_eq_false_iff_not, not_lt] at bounds
  have whole : h'.length.val = frameHeaderBytes + payload.length := by omega
  have made := eq_headerOf (by simpa using magic) whole (by simpa using version)
    (by simpa using sound)
  have bytes : Frame.bytes { type := h'.type, payload } = h'.bytes ++ payload := by
    rw [Frame.bytes, encodeFrame, ← made]
  refine ⟨?_, ?_, kept₂.trans kept₁⟩
  · rw [split₁, split₂, spelled, bytes, List.append_assoc]
  · rw [bytes, List.length_append, FrameHeader.bytes_length]
    unfold frameHeaderBytes at whole
    omega

theorem receiveExact_outgoing (size : Nat) (s : TcpSocket) :
    ((receiveExact size).exec s).2.outgoing = s.outgoing := by
  unfold receiveExact
  rw [Op.exec_get_bind, Op.exec_bind_of_ok (Op.exec_set _ _), Op.exec_bind_still]
  · rw [Op.exec_refuseIf_snd]
  · exact fun _ _ => rfl

/-- Reading sends nothing. -/
theorem readFrame_outgoing (s : TcpSocket) :
    ((readFrame crc32c maxFrameBytes).exec s).2.outgoing = s.outgoing := by
  have still {α : Type} {m : Method α} (same : ∀ s, (m.exec s).2 = s) (s : TcpSocket) :
      (m.exec s).2.outgoing = s.outgoing := by rw [same]
  unfold readFrame
  rw [Op.exec_get_bind]
  refine Op.exec_bind_view outgoing (still (Op.exec_refuseIf_snd _ _)) (fun _ => ?_) s
  refine Op.exec_bind_view outgoing (receiveExact_outgoing _) fun _ => ?_
  refine Op.exec_bind_view outgoing (still (Op.exec_lift_snd _)) fun _ => ?_
  refine Op.exec_bind_view outgoing (receiveExact_outgoing _) fun _ => ?_
  exact Op.exec_bind_view outgoing (still (Op.exec_refuseIf_snd _ _)) fun _ _ => rfl

/-- A frame is sent whole, or the socket stays as it was. -/
theorem writeFrame_cases (r : Response) (s : TcpSocket) :
    (∃ e, (writeFrame crc32c r.type.code r.payload).exec s = (.error e, s)) ∨
      (writeFrame crc32c r.type.code r.payload).exec s =
        (.ok (), { s with outgoing := s.outgoing ++ r.frame.bytes }) := by
  by_cases up : s.connected = true
  · rw [exec_writeFrame up]
    split
    · exact .inl ⟨_, rfl⟩
    · exact .inr rfl
  · unfold writeFrame writeBytes
    rw [Op.exec_bind, Op.exec_refuseIf]
    cases decide (maxFrameBytes < r.payload.length) with
    | true => exact .inl ⟨_, rfl⟩
    | false =>
      simp only [Bool.false_eq_true, if_false, Op.exec_get_bind, up]
      exact .inl ⟨_, rfl⟩

end TcpSocket

/-! ## Sessions -/

theorem wire_append (frames more : List Frame) : wire (frames ++ more) = wire frames ++ wire more :=
  List.flatMap_append

theorem wire_cons (frame : Frame) (frames : List Frame) :
    wire (frame :: frames) = frame.bytes ++ wire frames := rfl

theorem wire_snoc (frames : List Frame) (frame : Frame) :
    wire (frames ++ [frame]) = wire frames ++ frame.bytes := by
  have nothing : wire [] = [] := rfl
  rw [wire_append, wire_cons, nothing, List.append_nil]

/-- How far a session has come with what its client sends: where its thread stands tells what it has
read and what it has sent. -/
def Session.Stands (bytes : Text) (es : List Exchange) (s : Session) : Prop :=
  match s.phase with
  | .waiting => bytes = wire (es.map Exchange.frame) ++ s.socket.incoming ∧
      s.socket.outgoing = wire (es.map Exchange.answer)
  | .serving frame => frame.bytes.length ≤ maxFrameBytes ∧
      bytes = wire (es.map Exchange.frame) ++ (frame.bytes ++ s.socket.incoming) ∧
      s.socket.outgoing = wire (es.map Exchange.answer)
  | .answering response _ => bytes = wire (es.map Exchange.frame) ++ s.socket.incoming ∧
      ∃ before e, es = before ++ [e] ∧ e.response = response ∧
        s.socket.outgoing = wire (before.map Exchange.answer)
  | .ended => wire (es.map Exchange.frame) <+: bytes ∧
      wire (es.dropLast.map Exchange.answer) <+: s.socket.outgoing ∧
      s.socket.outgoing <+: wire (es.map Exchange.answer)

/-- A session attends to its client: it takes only whole frames within the limit, and stands somewhere. -/
def Session.Attends (bytes : Text) (es : List Exchange) (s : Session) : Prop :=
  (∀ e ∈ es, e.frame.bytes.length ≤ maxFrameBytes) ∧ s.Stands bytes es

namespace Session

variable {bytes : Text} {es : List Exchange} {s : Session}

theorem prefix_of_eq {as bs : List Byte} (same : as = bs) : as <+: bs :=
  ⟨[], by rw [List.append_nil, same]⟩

/-- What a list of answers without its last one puts on the wire comes first. -/
theorem wire_dropLast_prefix (es : List Exchange) :
    wire (es.dropLast.map Exchange.answer) <+: wire (es.map Exchange.answer) := by
  conv_rhs => rw [← List.take_append_drop (es.length - 1) es]
  rw [List.map_append, wire_append, List.dropLast_eq_take]
  exact List.prefix_append _ _

/-- Whatever the phase, the session may be left, unless it owes more than the last answer. -/
theorem Stands.ended {socket : TcpSocket} (read : wire (es.map Exchange.frame) <+: bytes)
    (sent : socket.outgoing = wire (es.map Exchange.answer)) : (s.leave socket).Stands bytes es := by
  refine ⟨read, ?_, prefix_of_eq sent⟩
  change _ <+: socket.outgoing
  rw [sent]
  exact wire_dropLast_prefix es

/-- Part of the last answer may be out. -/
theorem Stands.broken {socket : TcpSocket} {before : List Exchange} {e : Exchange} {part : Text}
    (read : wire ((before ++ [e]).map Exchange.frame) <+: bytes) (begins : part <+: e.answer.bytes)
    (sent : socket.outgoing = wire (before.map Exchange.answer) ++ part) :
    (s.leave socket).Stands bytes (before ++ [e]) := by
  refine ⟨read, ?_, ?_⟩
  · change _ <+: socket.outgoing
    rw [sent, List.dropLast_concat]
    exact List.prefix_append _ _
  · change socket.outgoing <+: _
    rw [sent, List.map_append, List.map_singleton, wire_snoc]
    exact (List.prefix_append_right_inj _).mpr begins

theorem stands_receive (read : bytes = wire (es.map Exchange.frame) ++ s.socket.incoming)
    (sent : s.socket.outgoing = wire (es.map Exchange.answer)) : s.receive.Stands bytes es := by
  unfold receive
  rcases run : (TcpSocket.readFrame crc32c maxFrameBytes).exec s.socket with ⟨e | frame, socket⟩
  · have silent := TcpSocket.readFrame_outgoing s.socket
    rw [run] at silent
    exact Stands.ended ⟨_, read.symm⟩ (silent.trans sent)
  · obtain ⟨front, short, silent⟩ := TcpSocket.readFrame_eq_ok run
    refine ⟨short, ?_, silent.trans sent⟩
    rw [read, front]

theorem stands_send {before : List Exchange} {e : Exchange}
    (read : bytes = wire ((before ++ [e]).map Exchange.frame) ++ s.socket.incoming)
    (sent : s.socket.outgoing = wire (before.map Exchange.answer)) (last : Bool)
    (failsAfter : Option Nat) : (s.send e.response last failsAfter).Stands bytes (before ++ [e]) := by
  unfold send
  rcases TcpSocket.writeFrame_cases e.response s.socket with ⟨e', run⟩ | run
  · rw [run]
    exact Stands.broken ⟨_, read.symm⟩ List.nil_prefix (sent.trans (List.append_nil _).symm)
  · have whole : s.socket.outgoing ++ e.response.frame.bytes =
        wire ((before ++ [e]).map Exchange.answer) := by
      rw [sent, List.map_append, List.map_singleton, wire_snoc]
      rfl
    rw [run]
    cases failsAfter with
    | some count =>
      refine Stands.broken ⟨_, read.symm⟩ (List.take_prefix count e.answer.bytes) ?_
      change s.socket.outgoing ++ _ = _
      rw [sent]
      rfl
    | none =>
      dsimp only
      split
      · exact Stands.ended ⟨_, read.symm⟩ whole
      · exact ⟨read, whole⟩

/-- **A turn of a session** keeps it attending, whatever coordinator it meets. -/
theorem attends_act {host : Host} {c : Coordinator} (held : s.Attends bytes es) (t : Tick) :
    (act host t s c).1.Attends bytes (es ++ (act host t s c).2.2.toList) := by
  obtain ⟨short, stands⟩ := held
  cases t with
  | close =>
    rw [act, Option.toList, List.append_nil]
    refine ⟨short, ?_⟩
    unfold Stands at stands ⊢
    exact stands
  | proceed moment failsAfter =>
    unfold Stands at stands
    unfold act
    cases here : s.phase with
    | waiting =>
      simp only [here] at stands ⊢
      rw [Option.toList, List.append_nil]
      exact ⟨short, stands_receive stands.1 stands.2⟩
    | serving frame =>
      simp only [here] at stands ⊢
      obtain ⟨fits, read, sent⟩ := stands
      refine ⟨fun e mem => ?_, ?_, es, _, rfl, rfl, sent⟩
      · rcases List.mem_append.mp mem with old | new
        · exact short e old
        · obtain rfl := List.mem_singleton.mp new
          exact fits
      · rw [Option.toList, List.map_append, List.map_singleton, wire_snoc, List.append_assoc]
        exact read
    | answering response last =>
      simp only [here] at stands ⊢
      rw [Option.toList, List.append_nil]
      obtain ⟨read, before, e, rfl, rfl, sent⟩ := stands
      exact ⟨short, stands_send read sent last failsAfter⟩
    | ended =>
      simp only [here] at stands ⊢
      rw [Option.toList, List.append_nil]
      refine ⟨short, ?_⟩
      unfold Stands
      rw [here]
      exact stands

theorem attends_accept (bytes : Text) : (accept bytes).Attends bytes [] :=
  ⟨fun _ no => absurd no List.not_mem_nil, rfl, rfl⟩

end Session

/-! ## Servers -/

/-- What a session has done for its client: it has read the frames of its exchanges and nothing that it
has not served, except for one frame; it has answered them in turn, perhaps all but the last; and while it
waits it owes nothing. -/
structure Session.Attended (bytes : Text) (es : List Exchange) (s : Session) : Prop where
  whole : ∀ e ∈ es, e.frame.bytes.length ≤ maxFrameBytes
  read : wire (es.map Exchange.frame) <+: bytes
  answered : wire (es.dropLast.map Exchange.answer) <+: s.socket.outgoing
  owed : s.socket.outgoing <+: wire (es.map Exchange.answer)
  idle : s.phase = .waiting → bytes = wire (es.map Exchange.frame) ++ s.socket.incoming ∧
    s.socket.outgoing = wire (es.map Exchange.answer)

theorem Session.Attends.attended {bytes : Text} {es : List Exchange} {s : Session}
    (held : s.Attends bytes es) : s.Attended bytes es := by
  obtain ⟨short, stands⟩ := held
  unfold Stands at stands
  cases here : s.phase with
  | waiting =>
    simp only [here] at stands
    obtain ⟨read, sent⟩ := stands
    refine ⟨short, ⟨_, read.symm⟩, ?_, prefix_of_eq sent, fun _ => ⟨read, sent⟩⟩
    rw [sent]
    exact wire_dropLast_prefix es
  | serving frame =>
    simp only [here] at stands
    obtain ⟨-, read, sent⟩ := stands
    refine ⟨short, ⟨_, read.symm⟩, ?_, prefix_of_eq sent, fun no => nomatch here.symm.trans no⟩
    rw [sent]
    exact wire_dropLast_prefix es
  | answering response last =>
    simp only [here] at stands
    obtain ⟨read, before, e, rfl, -, sent⟩ := stands
    refine ⟨short, ⟨_, read.symm⟩, ?_, ?_, fun no => nomatch here.symm.trans no⟩
    · exact prefix_of_eq (by rw [List.dropLast_concat, sent])
    · rw [sent, List.map_append, wire_append]
      exact List.prefix_append _ _
  | ended =>
    simp only [here] at stands
    exact ⟨short, stands.1, stands.2.1, stands.2.2, fun no => nomatch here.symm.trans no⟩

namespace Server

variable {host : Host}

/-- A turn that serves nothing leaves the coordinator alone. -/
theorem act_silent (t : Tick) (s : Session) (c : Coordinator)
    (silent : (Session.act host t s c).2.2 = none) : (Session.act host t s c).2.1 = c := by
  unfold Session.act at silent ⊢
  cases t with
  | close => rfl
  | proceed moment failsAfter => cases here : s.phase <;> simp_all

/-- A turn that serves a frame does what the exchange says. -/
theorem act_tells (t : Tick) (s : Session) (c : Coordinator) (e : Exchange)
    (tells : (Session.act host t s c).2.2 = some e) :
    (Session.act host t s c).2.1 = perform host c e ∧ Answers host c e := by
  unfold Session.act at tells ⊢
  cases t with
  | close => cases tells
  | proceed moment failsAfter =>
    cases here : s.phase with
    | serving frame =>
      simp only [here] at tells ⊢
      obtain rfl := Option.some.inj tells
      exact ⟨rfl, rfl⟩
    | _ =>
      simp only [here] at tells
      cases tells

/-- What a server has done in a run. -/
structure Linearized (host : Host) (c : Coordinator) (turns : List Turn) : Prop where
  core : (run host c turns).core =
    after (perform host) c ((served host c turns).map Prod.snd)
  answers : Along (perform host) (Answers host) c ((served host c turns).map Prod.snd)
  reachable : ∃ actions, after System.step (.up c) actions = .up (run host c turns).core
  lasting : ∀ more, served host c turns <+: served host c (turns ++ more)
  sessions : ∀ (i : Nat) (s : Session), (run host c turns).parties[i]? = some s →
    ∃ bytes, (Hub.entrants turns)[i]? = some bytes ∧
      s.Attended bytes (Hub.own i (served host c turns))

end Server

/-- **The server is linearized**: whatever steps the threads take in whatever order, the coordinator is
as if the requests that have been served had come one after the other, which is a state that the system
can reach; each has the response that it gets from the coordinator before it; what is served later comes
later in that order; and each session has served the requests of its own client in turn, and sent their
responses in turn. -/
theorem server_linearized (host : Host) (c : Coordinator) (turns : List Server.Turn) :
    Server.Linearized host c turns := by
  obtain ⟨core, answers⟩ := Hub.trace_sequential Session.accept
    Server.act_silent Server.act_tells turns (Server.opened c)
  refine ⟨core, answers, ?_, fun more => ?_, fun i s there => ?_⟩
  · obtain ⟨actions, reached⟩ := performs_reachable host c ((Server.served host c turns).map Prod.snd)
    exact ⟨actions, reached.trans (congrArg System.up core.symm)⟩
  · unfold Server.served
    rw [Hub.trace_append]
    exact List.prefix_append _ _
  · obtain ⟨bytes, entered, held⟩ := Hub.party_invariant
      (I := fun bytes es (s : Session) => s.Attends bytes es)
      (fun _ _ t _ _ held => Session.attends_act held t) Session.attends_accept c turns there
    exact ⟨bytes, entered, held.attended⟩

/-! ## Clients -/

/-- The payload that a request is answered with, unless by an error. -/
theorem respond_kind (host : Host) (moment : Moment) (m : Message) (c : Coordinator) :
    (respond host moment m c).1.kind = m.answerKind ∨
      (respond host moment m c).1.kind = .error := by
  have made {α : Type} {op : Coordinator.Method α} {f : α → Response} {r : Response}
      {c d : Coordinator} (kinds : ∀ a, (f a).kind = m.answerKind)
      (run : (op >>= fun a => pure (f a)).exec c = (.ok r, d)) : r.kind = m.answerKind := by
    obtain ⟨a, _, -, last⟩ := Op.exec_bind_ok run
    obtain rfl := Except.ok.inj (Prod.mk.inj last).1
    exact kinds a
  unfold respond
  rcases run : (handle host moment m).exec c with ⟨e | r, d⟩
  · exact .inr rfl
  · refine .inl ?_
    cases m with
    | holdQuery =>
      simp only [handle, Op.exec_pure, Prod.mk.injEq, Except.ok.injEq] at run
      rw [← run.1]
      rfl
    | lineage _ =>
      unfold handle at run
      rw [Op.exec_get_bind] at run
      exact made (fun _ => rfl) run
    | getReservation _ | queryClaimant _ | queryResource _ | queryCommitted _ | queryRemaining _ =>
      exact made (fun found => by cases found <;> rfl) run
    | _ => exact made (fun _ => rfl) run

/-- A request within its bounds is decoded as what it is. -/
theorem reply_frame (host : Host) (moment : Moment) {m : Message} (within : m.Within)
    (c : Coordinator) : reply host moment m.frame c = respond host moment m c := by
  have other : m.frame.isShutdown = false := by cases m <;> rfl
  have decoded : decodeMessage m.frame.type m.frame.payload = .ok m :=
    decodeMessage_eq_ok.mpr ⟨rfl, within, List.prefix_rfl⟩
  unfold reply dispatch
  rw [other, decoded]
  rfl

theorem Frame.bytes_length (frame : Frame) :
    frame.bytes.length = frameHeaderBytes + frame.payload.length := by
  simp [Frame.bytes, encodeFrame, frameHeaderBytes]

/-- A frame within the limit comes off the wire as it has been sent. -/
theorem TcpSocket.exec_readFrame_bytes {s : TcpSocket} (up : s.connected = true) {frame : Frame}
    {rest : Text} (fits : frame.bytes.length ≤ maxFrameBytes)
    (front : s.incoming = frame.bytes ++ rest) :
    (readFrame crc32c maxFrameBytes).exec s = (.ok frame, { s with incoming := rest }) := by
  rw [Frame.bytes_length] at fits
  exact (exec_readFrame_sent up (by omega) front).1 (by omega)

/-- No frame begins with another one. -/
theorem Frame.bytes_append_inj {f g : Frame} {a b : Text} (short : f.bytes.length ≤ maxFrameBytes)
    (short' : g.bytes.length ≤ maxFrameBytes) (same : f.bytes ++ a = g.bytes ++ b) :
    f = g ∧ a = b := by
  have first := TcpSocket.exec_readFrame_bytes (s := { incoming := f.bytes ++ a }) rfl short rfl
  have second := TcpSocket.exec_readFrame_bytes (s := { incoming := f.bytes ++ a }) rfl short' same
  have both := first.symm.trans second
  simp only [Prod.mk.injEq, Except.ok.injEq, TcpSocket.mk.injEq, true_and, and_true] at both
  exact both

/-- **Frames are spelled in one way.** -/
theorem wire_prefix {fs : List Frame} (short : ∀ f ∈ fs, f.bytes.length ≤ maxFrameBytes) :
    ∀ {gs : List Frame}, (∀ g ∈ gs, g.bytes.length ≤ maxFrameBytes) → wire fs <+: wire gs →
      fs <+: gs := by
  induction fs with
  | nil => exact fun _ _ => List.nil_prefix
  | cons f fs ih =>
    rintro (_ | ⟨g, gs⟩) short' ⟨rest, same⟩
    · have size := congrArg List.length same
      simp [wire, Frame.bytes_length, frameHeaderBytes] at size
    · rw [List.forall_mem_cons] at short short'
      rw [wire_cons, wire_cons, List.append_assoc] at same
      obtain ⟨rfl, others⟩ := Frame.bytes_append_inj short.1 short'.1 same
      exact (List.prefix_cons_inj f).mpr (ih short.2 short'.2 ⟨rest, others⟩)

/-- Frames within the limit come off the wire one after the other. -/
theorem TcpSocket.exec_readFrames_wire {rest : Text} :
    ∀ {fs : List Frame} {s : TcpSocket}, s.connected = true → s.incoming = wire fs ++ rest →
      (∀ f ∈ fs, f.bytes.length ≤ maxFrameBytes) →
        (readFrames crc32c fs.length).exec s = (.ok fs, { s with incoming := rest })
  | [], s, _, front, _ => by
    obtain rfl : s.incoming = rest := by simpa [wire] using front
    rfl
  | f :: fs, s, up, front, fits => by
    rw [List.forall_mem_cons] at fits
    have first : s.incoming = f.bytes ++ (wire fs ++ rest) := by
      rw [front, wire_cons, List.append_assoc]
    have others := exec_readFrames_wire (s := { s with incoming := wire fs ++ rest }) up rfl fits.2
    rw [List.length_cons, readFrames, Op.exec_bind_of_ok (exec_readFrame_bytes up fits.1 first),
      Op.exec_bind_of_ok others]
    rfl

/-- What a client of requests gets from its session. -/
structure ServedInTurn (host : Host) (ms : List Message) (es : List Exchange) (s : Session) :
    Prop where
  turn : es.map Exchange.frame <+: ms.map Message.frame
  answer : ∀ (k : Nat) (e : Exchange) (m : Message), es[k]? = some e → ms[k]? = some m →
    ∃ c, e.response = (respond host e.moment m c).1 ∧
      (e.response.Within → decodeAnswer m.answerKind e.answer = .ok e.response)
  received : ∀ n ≤ es.length, (n = es.length → s.phase = .waiting) →
    (∀ e ∈ es.take n, e.answer.bytes.length ≤ maxFrameBytes) →
      ((TcpSocket.readFrames crc32c n).exec { incoming := s.socket.outgoing }).1 =
        .ok ((es.take n).map Exchange.answer)

/-- **Requests are served in turn, each once.** If a client sends requests within their bounds and the
frame limit, then whatever the other clients do, its session has served the first of them, in their
order and each once; the client takes the frames of the responses off the wire in that order, except
that the last one may be on its way; and it reads each as the response that the coordinator has given
to the request. -/
theorem requests_served_in_turn (host : Host) (c : Coordinator) (turns : List Server.Turn) {i : Nat}
    {ms : List Message} (client : (Hub.entrants turns)[i]? = some (wire (ms.map Message.frame)))
    (sound : ∀ m ∈ ms, m.Within ∧ m.frame.bytes.length ≤ maxFrameBytes) {s : Session}
    (session : (Server.run host c turns).parties[i]? = some s) :
    ServedInTurn host ms (Hub.own i (Server.served host c turns)) s := by
  obtain ⟨bytes, entered, held⟩ := Hub.party_invariant
    (I := fun bytes es (s : Session) => s.Attends bytes es)
    (fun _ _ t _ _ held => Session.attends_act held t) Session.attends_accept c turns session
  obtain rfl := Option.some.inj (client.symm.trans entered)
  have attended : s.Attended _ (Hub.own i (Server.served host c turns)) := held.attended
  have turn : (Hub.own i (Server.served host c turns)).map Exchange.frame <+: ms.map Message.frame := by
    refine wire_prefix (fun f mem => ?_) (fun f mem => ?_) attended.read
    · obtain ⟨e, told, rfl⟩ := List.mem_map.mp mem
      exact attended.whole e told
    · obtain ⟨m, sent, rfl⟩ := List.mem_map.mp mem
      exact (sound m sent).2
  refine ⟨turn, fun k e m served asked => ?_, fun n most waits fit => ?_⟩
  · obtain ⟨d, answers⟩ := Hub.trace_mem Session.accept Server.act_silent
      Server.act_tells turns (Server.opened c) (List.mem_of_getElem? served)
    have same : e.frame = m.frame := by
      have found := (List.prefix_iff_getElem?.mp turn) k (by
        rw [List.length_map]
        exact (List.getElem?_eq_some_iff.mp served).1)
      rw [List.getElem?_map, asked, Option.map_some] at found
      rw [List.getElem_map] at found
      obtain ⟨bound, at'⟩ := List.getElem?_eq_some_iff.mp served
      rw [at'] at found
      exact (Option.some.inj found).symm
    have within := (sound m (List.mem_of_getElem? asked)).1
    have given : e.response = (respond host e.moment m d).1 := by
      rw [← reply_frame host e.moment within, ← same]
      exact answers
    refine ⟨d, given, fun fits => (decodeAnswer_own ?_).mpr fits⟩
    rw [given]
    exact respond_kind host e.moment m d
  · have sent : wire (((Hub.own i (Server.served host c turns)).take n).map Exchange.answer) <+:
        s.socket.outgoing := by
      rcases Nat.lt_or_ge n (Hub.own i (Server.served host c turns)).length with less | all
      · refine List.IsPrefix.trans ?_ attended.answered
        obtain ⟨more, whole⟩ : (Hub.own i (Server.served host c turns)).take n <+:
            (Hub.own i (Server.served host c turns)).dropLast := by
          rw [List.dropLast_eq_take]
          exact (List.take_prefix_take_left (by omega))
        rw [← whole, List.map_append, wire_append]
        exact List.prefix_append _ _
      · have all : n = _ := Nat.le_antisymm most all
        rw [List.take_of_length_le (by omega)]
        exact Session.prefix_of_eq (attended.idle (waits all)).2.symm
    obtain ⟨rest, front⟩ := sent
    have run := TcpSocket.exec_readFrames_wire (s := { incoming := s.socket.outgoing }) rfl front.symm
      fun f mem => by
        obtain ⟨e, told, rfl⟩ := List.mem_map.mp mem
        exact fit e told
    rw [List.length_map, List.length_take, Nat.min_eq_left most] at run
    rw [run]

/-- A client greets and asks for the statistics, and gets one answer before another one connects. -/
def greeted : List Server.Turn :=
  [.enter (wire [(Message.hello {}).frame, Message.stats.frame]), .act 0 (.proceed {} none),
    .act 0 (.proceed {} none), .act 0 (.proceed {} none), .enter [], .act 0 (.proceed {} none)]

theorem requests_served_hello : ∃ s, (Server.run {} {} greeted).parties[0]? = some s ∧
    (Hub.own 0 (Server.served {} {} greeted)).length = 1 ∧
    ServedInTurn {} [.hello {}, .stats] (Hub.own 0 (Server.served {} {} greeted)) s := by
  have there : ((Server.run {} {} greeted).parties[0]?).isSome = true := by decide +kernel
  obtain ⟨s, session⟩ := Option.isSome_iff_exists.mp there
  refine ⟨s, session, by decide +kernel, requests_served_in_turn {} {} greeted rfl ?_ session⟩
  rw [List.forall_mem_cons, List.forall_mem_singleton]
  refine ⟨⟨?_, by decide⟩, trivial, by decide⟩
  simp [Message.Within, ExactPayload.Within]

end Brf
