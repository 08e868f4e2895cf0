import Brf.Canonical
import Brf.Messages

/-!
# One payload for each request

The decoders of the requests accept exactly the encodings of the requests within their bounds,
followed by anything.

* `ExactPayload` of a payload type: its bounds, and the law of its decoder. `Message.Within` are the
  bounds of a request.

Results: `ExactPayload` of every payload type, `accepts_reader`, `decodeMessage_eq_ok`, and
`requests_exact`.
-/

namespace Brf

open Brf.Lib

/-! ## Payloads -/

instance : LawfulCodec RequestContext where
  Bounded v := v.reason.length ≤ maxProvenanceReasonBytes
  reads v := Reads.congr (reads_field v.actor <| reads_field v.publisher <|
    reads_field v.publisherBoot <| reads_field v.session <| reads_field v.attempt <|
    reads_field v.claimant <| reads_field v.claimantGeneration <| reads_field v.assertedEpoch <|
    reads_textField v.reason _ <| reads_done v)
    (by simp [Bounded])
  encode_pos v := flatten_pos v.actor _

instance : ExactCodec RequestContext where
  accepts := Accepts.congr (accepts_record <|
    accepts_field RequestContext.actor accepts fun _ =>
    accepts_field RequestContext.publisher accepts fun _ =>
    accepts_field RequestContext.publisherBoot accepts fun _ =>
    accepts_field RequestContext.session accepts fun _ =>
    accepts_field RequestContext.attempt accepts fun _ =>
    accepts_field RequestContext.claimant accepts fun _ =>
    accepts_field RequestContext.claimantGeneration accepts fun _ =>
    accepts_field RequestContext.assertedEpoch accepts fun _ =>
    accepts_field RequestContext.reason (accepts_text (by decide)) fun _ =>
    accepts_done (by rintro ⟨⟩; simp [and_assoc])) (by simp [Bounded]) fun _ _ => rfl

theorem accepts_holds : Accepts decodeHolds encode fun holds => holds.length ≤ 64 := by
  have whole := accepts_bind (q := fun holds : List HoldId =>
      holds.length ≤ 64 ∧ ∀ hold ∈ holds, Bounded hold)
    (fun holds : List HoldId => (Word.cast 32 holds.length : Word 32)) accepts
    fun count _ => (accepts_failIf (c := 64 < count.val)
      (e := makeError .resourceExhausted "too many holds named for consumption")
      (accepts_readN (accepts (α := HoldId)) count.val)).congr (fun holds => by
        rw [← and_assoc, count_eq_iff (by decide), and_assoc]) fun _ _ => rfl
  exact whole.congr (fun holds => by simp [Bounded]) fun _ _ => rfl

/-- A payload whose decoder accepts exactly the encodings within its bounds. -/
class ExactPayload (α : Type) [Codec α] where
  Within : α → Prop
  accepts : Accepts (decode : Reader Error α) encode Within

instance : ExactPayload HelloRequest where
  Within m := m.clientName.length ≤ 128
  accepts := Accepts.congr (accepts_record <|
    accepts_field HelloRequest.protocolVersion accepts fun _ =>
    accepts_field HelloRequest.client accepts fun _ =>
    accepts_field HelloRequest.clientName (accepts_text (by decide)) fun _ =>
    accepts_done (by rintro ⟨⟩; simp [and_assoc])) (by simp [Bounded]) fun _ _ => rfl

instance : ExactPayload CapacityIngestRequest where
  Within m := Bounded m.context ∧ Bounded m.snapshot ∧ m.withdrawals.length ≤ maxCollectionItems
  accepts := Accepts.congr (accepts_record <|
    accepts_field CapacityIngestRequest.context accepts fun _ =>
    accepts_field CapacityIngestRequest.snapshot accepts fun _ =>
    accepts_field CapacityIngestRequest.withdrawals accepts fun _ =>
    accepts_done (by rintro ⟨⟩; simp [and_assoc])) (by simp [Bounded]) fun _ _ => rfl

instance : ExactPayload PathIngestRequest where
  Within m := Bounded m.context ∧ Bounded m.snapshot
  accepts := Accepts.congr (accepts_record <|
    accepts_field PathIngestRequest.context accepts fun _ =>
    accepts_field PathIngestRequest.snapshot accepts fun _ =>
    accepts_done (by rintro ⟨⟩; simp)) (by simp [Bounded]) fun _ _ => rfl

instance : ExactPayload PolicyIngestRequest where
  Within m := Bounded m.context ∧ Bounded m.record
  accepts := Accepts.congr (accepts_record <|
    accepts_field PolicyIngestRequest.context accepts fun _ =>
    accepts_field PolicyIngestRequest.record accepts fun _ =>
    accepts_done (by rintro ⟨⟩; simp)) (by simp [Bounded]) fun _ _ => rfl

instance : ExactPayload ClaimantRegistrationRequest where
  Within m := Bounded m.context
  accepts := Accepts.congr (accepts_record <|
    accepts_field ClaimantRegistrationRequest.context accepts fun _ =>
    accepts_field ClaimantRegistrationRequest.claimant accepts fun _ =>
    accepts_field ClaimantRegistrationRequest.generation accepts fun _ =>
    accepts_done (by rintro ⟨⟩; simp [and_assoc])) (by simp [Bounded]) fun _ _ => rfl

instance : ExactPayload FenceRequest where
  Within m := Bounded m.context
  accepts := Accepts.congr (accepts_record <|
    accepts_field FenceRequest.context accepts fun _ =>
    accepts_field FenceRequest.claimant accepts fun _ =>
    accepts_field FenceRequest.claimantGeneration accepts fun _ =>
    accepts_field FenceRequest.boot accepts fun _ =>
    accepts_field FenceRequest.session accepts fun _ =>
    accepts_field FenceRequest.claimantWide accepts fun _ =>
    accepts_done (by rintro ⟨⟩; simp [and_assoc])) (by simp [Bounded]) fun _ _ => rfl

instance : ExactPayload ReservationCreateRequest where
  Within m := Bounded m.context ∧ Bounded m.terms ∧ m.consumeHolds.length ≤ 64
  accepts := Accepts.congr (accepts_record <|
    accepts_field ReservationCreateRequest.context accepts fun _ =>
    accepts_field ReservationCreateRequest.terms accepts fun _ =>
    accepts_field ReservationCreateRequest.requestedId accepts fun _ =>
    accepts_field ReservationCreateRequest.dryRun accepts fun _ =>
    accepts_field ReservationCreateRequest.consumeHolds accepts_holds fun _ =>
    accepts_done (by rintro ⟨⟩; simp [and_assoc])) (by simp [Bounded]) fun _ _ => rfl

instance : ExactPayload AmendmentRequest where
  Within m := Bounded m.context ∧ Bounded m.terms
  accepts := Accepts.congr (accepts_record <|
    accepts_field AmendmentRequest.context accepts fun _ =>
    accepts_field AmendmentRequest.target accepts fun _ =>
    accepts_field AmendmentRequest.targetGeneration accepts fun _ =>
    accepts_field AmendmentRequest.terms accepts fun _ =>
    accepts_field AmendmentRequest.dryRun accepts fun _ =>
    accepts_done (by rintro ⟨⟩; simp [and_assoc])) (by simp [Bounded]) fun _ _ => rfl

instance : ExactPayload ReservationRefRequest where
  Within m := Bounded m.context
  accepts := Accepts.congr (accepts_record <|
    accepts_field ReservationRefRequest.context accepts fun _ =>
    accepts_field ReservationRefRequest.id accepts fun _ =>
    accepts_field ReservationRefRequest.generation accepts fun _ =>
    accepts_done (by rintro ⟨⟩; simp [and_assoc])) (by simp [Bounded]) fun _ _ => rfl

instance : ExactPayload RecallRequest where
  Within m := Bounded m.context
  accepts := Accepts.congr (accepts_record <|
    accepts_field RecallRequest.context accepts fun _ =>
    accepts_field RecallRequest.id accepts fun _ =>
    accepts_field RecallRequest.generation accepts fun _ =>
    accepts_field RecallRequest.effectiveAt accepts fun _ =>
    accepts_field RecallRequest.grace accepts fun _ =>
    accepts_field RecallRequest.force accepts fun _ =>
    accepts_done (by rintro ⟨⟩; simp [and_assoc])) (by simp [Bounded]) fun _ _ => rfl

instance : ExactPayload RevalidateRequest where
  Within m := Bounded m.context
  accepts := Accepts.congr (accepts_record <|
    accepts_field RevalidateRequest.context accepts fun _ =>
    accepts_field RevalidateRequest.id accepts fun _ =>
    accepts_field RevalidateRequest.generation accepts fun _ =>
    accepts_field RevalidateRequest.markStale accepts fun _ =>
    accepts_done (by rintro ⟨⟩; simp [and_assoc])) (by simp [Bounded]) fun _ _ => rfl

instance : ExactPayload AttemptRequest where
  Within m := Bounded m.context
  accepts := Accepts.congr (accepts_record <|
    accepts_field AttemptRequest.context accepts fun _ =>
    accepts_field AttemptRequest.attempt accepts fun _ =>
    accepts_done (by rintro ⟨⟩; simp)) (by simp [Bounded]) fun _ _ => rfl

instance : ExactPayload LifecycleReconcileRequest where
  Within m := Bounded m.context
  accepts := Accepts.congr (accepts_record <|
    accepts_field LifecycleReconcileRequest.context accepts fun _ =>
    accepts_field LifecycleReconcileRequest.fenceDeadHolds accepts fun _ =>
    accepts_done (by rintro ⟨⟩; simp)) (by simp [Bounded]) fun _ _ => rfl

instance : ExactPayload QueryRequest where
  Within m := Bounded m.context
  accepts := Accepts.congr (accepts_record <|
    accepts_field QueryRequest.context accepts fun _ =>
    accepts_field QueryRequest.resource accepts fun _ =>
    accepts_field QueryRequest.window accepts fun _ =>
    accepts_field QueryRequest.amount accepts fun _ =>
    accepts_field QueryRequest.includeTerminal accepts fun _ =>
    accepts_done (by rintro ⟨⟩; simp [and_assoc])) (by simp [Bounded]) fun _ _ => rfl

instance : ExactPayload ClaimantQueryRequest where
  Within m := Bounded m.context
  accepts := Accepts.congr (accepts_record <|
    accepts_field ClaimantQueryRequest.context accepts fun _ =>
    accepts_field ClaimantQueryRequest.claimant accepts fun _ =>
    accepts_field ClaimantQueryRequest.includeTerminal accepts fun _ =>
    accepts_done (by rintro ⟨⟩; simp [and_assoc])) (by simp [Bounded]) fun _ _ => rfl

instance : ExactPayload LineageRequest where
  Within m := Bounded m.context
  accepts := Accepts.congr (accepts_record <|
    accepts_field LineageRequest.context accepts fun _ =>
    accepts_field LineageRequest.id accepts fun _ =>
    accepts_field LineageRequest.generation accepts fun _ =>
    accepts_done (by rintro ⟨⟩; simp [and_assoc])) (by simp [Bounded]) fun _ _ => rfl

instance : ExactPayload HoldAcquireRequest where
  Within m := Bounded m.context ∧ Bounded m.terms
  accepts := Accepts.congr (accepts_record <|
    accepts_field HoldAcquireRequest.context accepts fun _ =>
    accepts_field HoldAcquireRequest.terms accepts fun _ =>
    accepts_field HoldAcquireRequest.expiresAt accepts fun _ =>
    accepts_done (by rintro ⟨⟩; simp [and_assoc])) (by simp [Bounded]) fun _ _ => rfl

instance : ExactPayload HoldReleaseRequest where
  Within m := Bounded m.context
  accepts := Accepts.congr (accepts_record <|
    accepts_field HoldReleaseRequest.context accepts fun _ =>
    accepts_field HoldReleaseRequest.id accepts fun _ =>
    accepts_field HoldReleaseRequest.generation accepts fun _ =>
    accepts_done (by rintro ⟨⟩; simp [and_assoc])) (by simp [Bounded]) fun _ _ => rfl
/-! ## Messages -/

namespace Message

/-- The bounds that the decoder of a request imposes. -/
def Within : Message → Prop
  | hello request => ExactPayload.Within request
  | ingestCapacity request => ExactPayload.Within request
  | ingestPathAuthority request => ExactPayload.Within request
  | ingestPolicy request => ExactPayload.Within request
  | registerClaimant request => ExactPayload.Within request
  | fence request => ExactPayload.Within request
  | validate request | commit request | explainConflicts request => ExactPayload.Within request
  | amend request => ExactPayload.Within request
  | release request | revoke request | getReservation request => ExactPayload.Within request
  | «recall» request => ExactPayload.Within request
  | revalidate request => ExactPayload.Within request
  | reconcileAttempt request => ExactPayload.Within request
  | reconcileLifecycle request | sessionRelease request => ExactPayload.Within request
  | queryClaimant request => ExactPayload.Within request
  | queryResource request | queryCommitted request | queryRemaining request
  | timeline request => ExactPayload.Within request
  | lineage request => ExactPayload.Within request
  | holdAcquire request => ExactPayload.Within request
  | holdRelease request => ExactPayload.Within request
  | overcommitReport | stats | durableReplay | holdQuery => True

/-- A request that is made of its payload. -/
theorem accepts_make {α : Type} [Codec α] [ExactPayload α] {make : α → Message} {kind : MessageType}
    (typed : ∀ a, (make a).type = kind) (only : ∀ m : Message, m.type = kind → ∃ a, m = make a)
    (within : ∀ a, (make a).Within ↔ ExactPayload.Within a)
    (same : ∀ a, (make a).payload = encode a) :
    Accepts (decode >>= fun a => pure (make a) : Reader Error Message) payload
      fun m => m.type = kind ∧ m.Within := by
  refine accepts_map ExactPayload.accepts (fun m => ?_) fun a _ => same a
  constructor
  · rintro ⟨kinds, inside⟩
    obtain ⟨a, rfl⟩ := only m kinds
    exact ⟨a, (within a).mp inside, rfl⟩
  · rintro ⟨a, inside, rfl⟩
    exact ⟨typed a, (within a).mpr inside⟩

/-- A request without payload. -/
theorem accepts_bare {bare : Message} (only : ∀ m : Message, m.type = bare.type → m = bare)
    (within : bare.Within) (empty : bare.payload = []) :
    Accepts (pure bare : Reader Error Message) payload fun m => m.type = bare.type ∧ m.Within := by
  refine (accepts_pure bare).congr (fun m => ?_) fun m inside => ?_
  · constructor
    · rintro rfl
      exact ⟨rfl, within⟩
    · exact fun inside => only m inside.1
  · rw [only m inside.1, empty]

/-- **The decoder of a type** accepts exactly the requests of that type within their bounds. -/
theorem accepts_reader {kind : MessageType} {decoder : Reader Error Message}
    (served : reader kind = some decoder) :
    Accepts decoder payload fun m => m.type = kind ∧ m.Within := by
  cases kind with
  | helloAck => cases served
  | shutdown => cases served
  | ok => cases served
  | error => cases served
  | overcommitReport | stats | durableReplay | holdQuery =>
    obtain rfl := Option.some.inj served
    exact accepts_bare (fun m typed => by cases m <;> first | rfl | cases typed) trivial rfl
  | _ =>
    obtain rfl := Option.some.inj served
    exact accepts_make (fun _ => rfl)
      (fun m typed => by cases m <;> first | exact ⟨_, rfl⟩ | cases typed) (fun _ => Iff.rfl)
      fun _ => rfl

/-- The types of requests are those that are served. -/
theorem reader_type (m : Message) : ∃ decoder, reader m.type = some decoder := by
  cases m <;> exact ⟨_, rfl⟩

end Message

theorem MessageType.ofCode?_eq_some {code : Word 16} {type : MessageType} :
    MessageType.ofCode? code = some type ↔ type.code = code := by
  unfold MessageType.ofCode?
  constructor
  · intro found
    simpa using List.find?_some found
  · rintro rfl
    cases type <;> rfl

/-- **Decoding is exact**: a payload is accepted under a type exactly if it begins with the encoding of
a request of that type within its bounds. -/
theorem decodeMessage_eq_ok {code : Word 16} {bytes : Text} {m : Message} :
    decodeMessage code bytes = .ok m ↔ code = m.type.code ∧ m.Within ∧ m.payload <+: bytes := by
  unfold decodeMessage
  cases declared : MessageType.ofCode? code with
  | none =>
    refine ⟨fun no => (by cases no), fun ⟨same, _⟩ => ?_⟩
    rw [MessageType.ofCode?_eq_some.mpr same.symm] at declared
    cases declared
  | some type =>
    have code' := MessageType.ofCode?_eq_some.mp declared
    have typed : m.type = type ↔ code = m.type.code := by
      constructor
      · rintro rfl
        exact code'.symm
      · intro same
        exact Option.some.inj ((MessageType.ofCode?_eq_some.mpr same.symm).symm.trans declared)
    dsimp only
    cases served : Message.reader type with
    | none =>
      refine ⟨fun no => (by cases no), fun ⟨same, _⟩ => ?_⟩
      obtain ⟨decoder, other⟩ := m.reader_type
      rw [typed.mpr same, served] at other
      cases other
    | some decoder =>
      dsimp only
      rw [(Message.accepts_reader served).run'_eq_ok, typed, and_assoc]

/-- **What a client sends is what the server reads**: the payload of a request, followed by anything, is
read as that request exactly if it is within its bounds; no payload begins with that of another request
of its type; and nothing else is read. -/
theorem requests_exact :
    (∀ (m : Message) (rest : Text),
      decodeMessage m.type.code (m.payload ++ rest) = .ok m ↔ m.Within) ∧
    (∀ m m' : Message, m.type = m'.type → m.Within → m'.Within → m.payload <+: m'.payload →
      m = m') ∧
    ∀ (code : Word 16) (bytes : Text) (m : Message), decodeMessage code bytes = .ok m →
      code = m.type.code ∧ m.payload <+: bytes := by
  refine ⟨fun m rest => ?_, fun m m' same within within' begins => ?_, fun code bytes m read => ?_⟩
  · rw [decodeMessage_eq_ok]
    exact ⟨fun h => h.2.1, fun within => ⟨rfl, within, List.prefix_append _ _⟩⟩
  · obtain ⟨decoder, served⟩ := m.reader_type
    exact (Message.accepts_reader served).prefix_free ⟨rfl, within⟩ ⟨same.symm, within'⟩ begins
  · obtain ⟨same, -, begins⟩ := decodeMessage_eq_ok.mp read
    exact ⟨same, begins⟩

end Brf
