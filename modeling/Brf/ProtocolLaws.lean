import Brf.Canonical
import Brf.JournalLaws
import Brf.Protocol

/-!
# What the two frame readers accept

The header of a frame is parsed by two functions, and the limit of a frame is checked by the sender
and by the receiver.

* `decodeFrame_header` and `exec_readFrame` say what each reader does behind a whole header; every
  byte string of sixteen bytes or more starts with one (`exists_header`).

Results: `frames_exact_iff` (the readers agree with the encoder and with each other except on frames of
undeclared types), and `frames_delivered_iff` (what is sent is received except for payloads of the
last sixteen lengths).
-/

namespace Brf

open Brf.Lib

variable {digest : Text → Word 32}

/-! ## Headers -/

/-- A field at the front. -/
theorem run_decode_bind {α β : Type} [Codec α] [LawfulCodec α] [ExactCodec α] {a : α}
    (bounded : Bounded a) (f : α → Reader Error β) (rest : Text) :
    (decode >>= f).run' (encode a ++ rest) = (f a).run' rest := by
  have front := (accepts (α := α) (encode a ++ rest) a rest).mpr ⟨bounded, rfl⟩
  have run : (decode >>= f).run' (encode a ++ rest) =
      Prod.fst <$> ((decode : Reader Error α).run (encode a ++ rest) >>= fun x => (f x.1).run x.2) :=
    rfl
  rw [run, front]
  rfl

theorem run_word32_bind {β : Type} (w : Word 32) (f : Word 32 → Reader Error β) (rest : Text) :
    (decode >>= f).run' (encode w ++ rest) = (f w).run' rest := run_decode_bind trivial f rest

theorem run_word16_bind {β : Type} (w : Word 16) (f : Word 16 → Reader Error β) (rest : Text) :
    (decode >>= f).run' (encode w ++ rest) = (f w).run' rest := run_decode_bind trivial f rest

/-- A check between two fields. -/
theorem run_failIf_bind {β : Type} (c : Bool) (code : ErrorCode) (message : String)
    (m : Reader Error β) (rest : Text) :
    (failIf c (makeError code message) >>= fun _ => m).run' rest =
      (refuse c code message >>= fun _ => m.run' rest) := by
  cases c <;> rfl

/-- Four bytes are a word. -/
theorem exists_word32 (bytes : Text) (enough : 4 ≤ bytes.length) :
    ∃ w : Word 32, bytes = encode w ++ bytes.drop 4 := by
  have run : (decode : Reader Error (Word 32)).run bytes =
      .ok (Word.cast 32 (leValue (bytes.take 4)), bytes.drop 4) := by
    change ((takeBytes 4 _ : Reader Error Text).run bytes >>= _) = _
    have take : (takeBytes 4 (truncated "u8") : Reader Error Text).run bytes =
        .ok (bytes.take 4, bytes.drop 4) := if_neg (by omega)
    rw [take]
    rfl
  exact ⟨_, ((accepts _ _ _).mp run).2⟩

theorem exists_word16 (bytes : Text) (enough : 2 ≤ bytes.length) :
    ∃ w : Word 16, bytes = encode w ++ bytes.drop 2 := by
  have run : (decode : Reader Error (Word 16)).run bytes =
      .ok (Word.cast 16 (leValue (bytes.take 2)), bytes.drop 2) := by
    change ((takeBytes 2 _ : Reader Error Text).run bytes >>= _) = _
    have take : (takeBytes 2 (truncated "u8") : Reader Error Text).run bytes =
        .ok (bytes.take 2, bytes.drop 2) := if_neg (by omega)
    rw [take]
    rfl
  exact ⟨_, ((accepts _ _ _).mp run).2⟩

@[simp] theorem FrameHeader.bytes_length (h : FrameHeader) : h.bytes.length = 16 := by
  simp [FrameHeader.bytes, encode]

/-- Every byte string that is long enough starts with a header. -/
theorem exists_header {bytes : Text} (enough : frameHeaderBytes ≤ bytes.length) :
    ∃ (h : FrameHeader) (payload : Text), bytes = h.bytes ++ payload := by
  unfold frameHeaderBytes at enough
  obtain ⟨magic, first⟩ := exists_word32 bytes (by omega)
  obtain ⟨length, second⟩ := exists_word32 (bytes.drop 4) (by simp; omega)
  obtain ⟨checksum, third⟩ := exists_word32 ((bytes.drop 4).drop 4) (by simp; omega)
  obtain ⟨type, fourth⟩ := exists_word16 (((bytes.drop 4).drop 4).drop 4)
    (by simp; omega)
  obtain ⟨version, fifth⟩ := exists_word16 ((((bytes.drop 4).drop 4).drop 4).drop 2)
    (by simp; omega)
  refine ⟨⟨magic, length, checksum, type, version⟩, bytes.drop 16, ?_⟩
  calc bytes = encode magic ++ (encode length ++ (encode checksum ++ (encode type ++
        (encode version ++ ((((bytes.drop 4).drop 4).drop 4).drop 2).drop 2)))) := by
        rw [← fifth, ← fourth, ← third, ← second, ← first]
    _ = FrameHeader.bytes ⟨magic, length, checksum, type, version⟩ ++ bytes.drop 16 := by
        simp [FrameHeader.bytes]

/-- **The decoder** behind a header. -/
theorem decodeFrame_header (h : FrameHeader) (payload : Text) :
    decodeFrame digest (h.bytes ++ payload) = (do
      refuse (h.magic != frameMagic) .corrupt "frame magic is invalid"
      refuse (h.length.val != frameHeaderBytes + payload.length) .corrupt
        "frame length does not match the received bytes"
      refuse (h.version != wireProtocolVersion) .unsupported
        "frame protocol version is not supported"
      refuse (digest payload != h.checksum) .corrupt "frame checksum mismatch"
      refuse (h.type.val < 1 || MessageType.error.code.val < h.type.val) .unsupported
        "frame declares an unknown message type"
      .ok { type := h.type, payload }) := by
  generalize whole : h.bytes ++ payload = bytes
  have len : bytes.length = frameHeaderBytes + payload.length := by
    simp [← whole, frameHeaderBytes]
  have body : bytes.drop frameHeaderBytes = payload := by
    rw [← whole]
    exact List.drop_left' (by simp [frameHeaderBytes])
  have fields : bytes = encode h.magic ++ (encode h.length ++ (encode h.checksum ++
      (encode h.type ++ (encode h.version ++ payload)))) := by
    simp [← whole, FrameHeader.bytes]
  have long : decide (bytes.length < frameHeaderBytes) = false := by simp [len]
  unfold decodeFrame frameReader
  rw [long, body, len, fields]
  simp only [run_word32_bind, run_word16_bind, run_failIf_bind]
  rfl

/-! ## Sockets -/

namespace TcpSocket

/-- Enough bytes have arrived. -/
theorem exec_receiveExact {s : TcpSocket} {bytes rest : Text} (front : s.incoming = bytes ++ rest) :
    Op.exec (receiveExact bytes.length) s = (.ok bytes, { s with incoming := rest }) := by
  unfold receiveExact
  rw [Op.exec_get_bind, Op.exec_bind_of_ok (Op.exec_set _ _), front, List.drop_left, List.take_left]
  have enough : decide ((bytes ++ rest).length < bytes.length) = false := by simp
  rw [enough]
  rfl

/-- What `read_frame` finds in a header. -/
theorem headerReader_bytes (bound : Nat) (h : FrameHeader) :
    (headerReader bound).run' h.bytes = (do
      refuse (h.magic != frameMagic) .corrupt "frame magic is invalid"
      refuse (h.length.val < frameHeaderBytes || bound < h.length.val) .resourceExhausted
        "frame declares an unsupported length"
      refuse (h.version != wireProtocolVersion) .unsupported
        "frame protocol version is not supported"
      .ok h) := by
  have fields : h.bytes = encode h.magic ++ (encode h.length ++ (encode h.checksum ++
      (encode h.type ++ (encode h.version ++ [])))) := by
    simp [FrameHeader.bytes]
  unfold headerReader
  rw [fields]
  simp only [run_word32_bind, run_word16_bind, run_failIf_bind]
  rfl

/-- The verdict of `read_frame` on a header and a payload of the declared length. -/
def verdict (digest : Text → Word 32) (bound : Nat) (h : FrameHeader) (payload : Text) :
    Result Frame := do
  refuse (h.magic != frameMagic) .corrupt "frame magic is invalid"
  refuse (h.length.val < frameHeaderBytes || bound < h.length.val) .resourceExhausted
    "frame declares an unsupported length"
  refuse (h.version != wireProtocolVersion) .unsupported "frame protocol version is not supported"
  refuse (digest payload != h.checksum) .corrupt "frame checksum mismatch"
  .ok { type := h.type, payload }

theorem headerReader_bind (bound : Nat) (h : FrameHeader) (payload : Text) :
    ((headerReader bound).run' h.bytes >>= fun h => do
      refuse (digest payload != h.checksum) .corrupt "frame checksum mismatch"
      .ok { type := h.type, payload }) = verdict digest bound h payload := by
  rw [headerReader_bytes, verdict]
  simp only [bind_assoc]
  rfl

/-- **The receiver** behind a header and a payload of the declared length. -/
theorem exec_readFrame {s : TcpSocket} (up : s.connected = true) {bound : Nat} {h : FrameHeader}
    {payload rest : Text} (front : s.incoming = h.bytes ++ (payload ++ rest))
    (whole : h.length.val = frameHeaderBytes + payload.length) :
    (Op.exec (readFrame digest bound) s).1 = verdict digest bound h payload ∧
      ∀ frame, verdict digest bound h payload = .ok frame →
        (Op.exec (readFrame digest bound) s).2 = { s with incoming := rest } := by
  have sixteen : frameHeaderBytes = h.bytes.length := by simp [frameHeaderBytes]
  have size : h.length.val - frameHeaderBytes = payload.length := by omega
  have open' : (!s.connected) = false := by
    rw [up]
    rfl
  unfold readFrame
  rw [Op.exec_get_bind, open', Op.exec_bind_of_ok (Op.exec_refuseIf _ _ _), sixteen,
    Op.exec_bind_of_ok (exec_receiveExact front), ← sixteen, ← headerReader_bind]
  cases header : (headerReader bound).run' h.bytes with
  | error e =>
    refine ⟨rfl, fun frame no => ?_⟩
    cases no
  | ok found =>
    obtain rfl : found = h := by
      rw [headerReader_bytes] at header
      simp only [check_bind_eq_ok] at header
      exact (Except.ok.inj header.2.2.2).symm
    have found_bind : ∀ f : FrameHeader → Result Frame, Except.ok found >>= f = f found :=
      fun _ => rfl
    rw [found_bind, Op.exec_bind_of_ok (Op.exec_lift_ok _ _), size,
      Op.exec_bind_of_ok (exec_receiveExact rfl), Op.exec_bind, Op.exec_refuseIf]
    cases digest payload != found.checksum with
    | true =>
      refine ⟨rfl, fun frame no => ?_⟩
      cases no
    | false => exact ⟨rfl, fun _ _ => rfl⟩

end TcpSocket

/-! ## The two readers -/

/-- The type codes that `decode_frame` lets through. -/
def Ranged (type : Word 16) : Prop := ¬ type.val < 1 ∧ ¬ MessageType.error.code.val < type.val

instance (type : Word 16) : Decidable (Ranged type) := inferInstanceAs (Decidable (_ ∧ _))

theorem Declared.ranged {type : Word 16} (h : Declared type) : Ranged type := by
  obtain ⟨m, rfl⟩ := h
  cases m <;> exact ⟨by decide, by decide⟩

/-- A byte string that is as long as its header declares. -/
def WholeFrame (bytes : Text) : Prop :=
  ∃ (h : FrameHeader) (payload : Text), bytes = h.bytes ++ payload ∧
    h.length.val = frameHeaderBytes + payload.length

section

variable {h : FrameHeader} {payload : Text}

theorem headerOf_length {type : Word 16} (short : payload.length + frameHeaderBytes ≤ 4294967295) :
    (headerOf digest type payload).length.val = frameHeaderBytes + payload.length :=
  Nat.mod_eq_of_lt (by omega)

/-- The header of a frame is what `encode_frame` has put there. -/
theorem eq_headerOf (magic : h.magic = frameMagic)
    (whole : h.length.val = frameHeaderBytes + payload.length)
    (version : h.version = wireProtocolVersion) (checksum : digest payload = h.checksum) :
    h = headerOf digest h.type payload := by
  have length : h.length = Word.cast 32 (frameHeaderBytes + payload.length) := by
    rw [← whole, Word.cast_val]
  obtain ⟨_, _, _, _, _⟩ := h
  simp_all [headerOf]

/-- **The receiver** takes the encoded frames within its bound, whatever their type. -/
theorem TcpSocket.verdict_eq_ok {bound : Nat}
    (whole : h.length.val = frameHeaderBytes + payload.length) {frame : Frame} :
    verdict digest bound h payload = .ok frame ↔
      h = headerOf digest h.type payload ∧ frameHeaderBytes + payload.length ≤ bound ∧
        frame = { type := h.type, payload } := by
  simp only [verdict, check_bind_eq_ok, refuse_eq_ok, bne_eq_false_iff_eq, Bool.or_eq_false_iff,
    decide_eq_false_iff_not, not_lt, whole, Except.ok.injEq]
  constructor
  · rintro ⟨magic, ⟨-, inside⟩, version, checksum, rfl⟩
    exact ⟨eq_headerOf magic whole version checksum, inside, rfl⟩
  · rintro ⟨same, inside, rfl⟩
    refine ⟨?_, ⟨by omega, inside⟩, ?_, ?_, rfl⟩ <;> rw [same] <;> rfl

/-- The decoder is the receiver and the check of the type. -/
theorem decodeFrame_of_whole {bound : Nat}
    (whole : h.length.val = frameHeaderBytes + payload.length)
    (inside : frameHeaderBytes + payload.length ≤ bound) :
    decodeFrame digest (h.bytes ++ payload) = (TcpSocket.verdict digest bound h payload >>= fun f => do
      refuse (f.type.val < 1 || MessageType.error.code.val < f.type.val) .unsupported
        "frame declares an unknown message type"
      .ok f) := by
  have exact : (h.length.val != frameHeaderBytes + payload.length) = false := by simp [whole]
  have fits : (h.length.val < frameHeaderBytes || bound < h.length.val) = false := by
    simp only [Bool.or_eq_false_iff, decide_eq_false_iff_not]
    omega
  rw [decodeFrame_header, TcpSocket.verdict, exact, fits]
  simp only [bind_assoc]
  rfl

/-- **The decoder** takes the encoded frames whose type code is in range. -/
theorem decodeFrame_eq_ok {bytes : Text} (short : bytes.length ≤ maxFrameBytes) {type : Word 16} :
    decodeFrame digest bytes = .ok { type, payload } ↔
      Ranged type ∧ bytes = encodeFrame digest type payload := by
  constructor
  · intro run
    have enough : frameHeaderBytes ≤ bytes.length := by
      unfold decodeFrame at run
      simpa using (check_bind_eq_ok.mp run).1
    obtain ⟨h, body, rfl⟩ := exists_header enough
    rw [decodeFrame_header] at run
    simp only [check_bind_eq_ok, refuse_eq_ok, bne_eq_false_iff_eq, Bool.or_eq_false_iff,
      decide_eq_false_iff_not, Except.ok.injEq] at run
    obtain ⟨magic, whole, version, checksum, ranged, same⟩ := run
    cases same
    refine ⟨ranged, ?_⟩
    rw [encodeFrame, ← eq_headerOf magic whole version checksum]
  · rintro ⟨ranged, rfl⟩
    have size : frameHeaderBytes + payload.length ≤ maxFrameBytes := by
      simpa [encodeFrame, frameHeaderBytes] using short
    have whole : (headerOf digest type payload).length.val = frameHeaderBytes + payload.length := by
      unfold maxFrameBytes at size
      exact headerOf_length (by omega)
    rw [encodeFrame, decodeFrame_of_whole whole size,
      (TcpSocket.verdict_eq_ok whole).mpr ⟨rfl, size, rfl⟩]
    have passes : (type.val < 1 || MessageType.error.code.val < type.val) = false := by
      simpa [Ranged] using ranged
    change (refuse (type.val < 1 || MessageType.error.code.val < type.val) _ _ >>= _) = _
    rw [passes]
    rfl

end

/-- Both readers accept exactly the encoded frames of declared types, and agree. -/
structure DecodedExactly (digest : Text → Word 32) (bytes : Text) : Prop where
  frames : ∀ type payload, decodeFrame digest bytes = .ok { type, payload } ↔
    Declared type ∧ bytes = encodeFrame digest type payload
  agree : WholeFrame bytes → ∀ (s : TcpSocket) (rest : Text), s.connected = true →
    s.incoming = bytes ++ rest →
      (Op.exec (TcpSocket.readFrame digest maxFrameBytes) s).1 = decodeFrame digest bytes

/-- An encoded frame is complete. -/
theorem wholeFrame_encodeFrame {type : Word 16} {payload : Text}
    (short : (encodeFrame digest type payload).length ≤ maxFrameBytes) :
    WholeFrame (encodeFrame digest type payload) ∧
      frameHeaderBytes + payload.length ≤ maxFrameBytes := by
  have size : frameHeaderBytes + payload.length ≤ maxFrameBytes := by
    simpa [encodeFrame, frameHeaderBytes] using short
  refine ⟨⟨_, payload, rfl, headerOf_length ?_⟩, size⟩
  unfold maxFrameBytes at size
  omega

/-- A frame that the decoder refuses and the receiver takes. -/
theorem not_agree_of_not_ranged {type : Word 16} {payload : Text}
    (short : (encodeFrame digest type payload).length ≤ maxFrameBytes) (no : ¬ Ranged type) :
    ¬ DecodedExactly digest (encodeFrame digest type payload) := by
  intro exact
  obtain ⟨complete, size⟩ := wholeFrame_encodeFrame short
  have whole : (headerOf digest type payload).length.val = frameHeaderBytes + payload.length := by
    unfold maxFrameBytes at size
    exact headerOf_length (by omega)
  have taken := (TcpSocket.verdict_eq_ok whole).mpr ⟨rfl, size, rfl⟩
  have same := exact.agree complete { incoming := encodeFrame digest type payload ++ [] } [] rfl rfl
  have front : ({ incoming := encodeFrame digest type payload ++ [] } : TcpSocket).incoming =
      (headerOf digest type payload).bytes ++ (payload ++ []) := by
    simp [encodeFrame]
  rw [(TcpSocket.exec_readFrame rfl front whole).1, taken] at same
  exact no ((decodeFrame_eq_ok short).mp same.symm).1

/-- **The two readers of frames.** A byte string within the frame limit is decoded exactly and alike
by both readers if and only if it is not the encoding of a frame of an undeclared type. -/
theorem frames_exact_iff (digest : Text → Word 32) (bytes : Text)
    (short : bytes.length ≤ maxFrameBytes) : DecodedExactly digest bytes ↔
      ¬ ∃ type payload, ¬ Declared type ∧ bytes = encodeFrame digest type payload := by
  constructor
  · rintro exact ⟨type, payload, no, rfl⟩
    by_cases ranged : Ranged type
    · have taken := (decodeFrame_eq_ok short).mpr ⟨ranged, rfl⟩
      exact no ((exact.frames type payload).mp taken).1
    · exact not_agree_of_not_ranged short ranged exact
  · intro declared
    have only (type : Word 16) (payload : Text) (same : bytes = encodeFrame digest type payload) :
        Declared type := by
      by_contra no
      exact declared ⟨type, payload, no, same⟩
    constructor
    · intro type payload
      rw [decodeFrame_eq_ok short]
      constructor
      · rintro ⟨-, same⟩
        exact ⟨only type payload same, same⟩
      · rintro ⟨known, same⟩
        exact ⟨known.ranged, same⟩
    · rintro ⟨h, payload, rfl, whole⟩ s rest up front
      have size : frameHeaderBytes + payload.length ≤ maxFrameBytes := by
        simpa [frameHeaderBytes] using short
      rw [List.append_assoc] at front
      rw [(TcpSocket.exec_readFrame up front whole).1, decodeFrame_of_whole whole size]
      cases verdict : TcpSocket.verdict digest maxFrameBytes h payload with
      | error e => rfl
      | ok frame =>
        obtain ⟨same, -, rfl⟩ := (TcpSocket.verdict_eq_ok whole).mp verdict
        have known := only h.type payload (by rw [encodeFrame, ← same])
        have passes : (h.type.val < 1 || MessageType.error.code.val < h.type.val) = false := by
          simpa [Ranged] using known.ranged
        change _ = (refuse (h.type.val < 1 || MessageType.error.code.val < h.type.val) _ _ >>= _)
        rw [passes]
        rfl

/-- The type stands behind three words. -/
theorem encodeFrame_type (type : Word 16) (payload : Text) :
    ((encodeFrame digest type payload).drop 12).take 2 = encode type := by
  have fields : encodeFrame digest type payload =
      (encode frameMagic ++ encode (headerOf digest type payload).length ++
        encode (digest payload)) ++ (encode type ++ (encode wireProtocolVersion ++ payload)) := by
    simp [encodeFrame, FrameHeader.bytes, headerOf]
  exact field_eq _ _ fields (by simp [encode]) (by simp [encode])

/-- A greeting is decoded exactly. -/
theorem frames_exact_hello : DecodedExactly crc32c (encodeFrame crc32c MessageType.hello.code []) := by
  refine (frames_exact_iff _ _ (by decide)).mpr ?_
  rintro ⟨type, payload, no, same⟩
  have types := congrArg (fun b : Text => (b.drop 12).take 2) same
  simp only [encodeFrame_type] at types
  obtain ⟨rfl, -⟩ := (accepts (α := Word 16)).injective (s := []) (t := []) trivial trivial
    (congrArg (· ++ []) types)
  exact no ⟨_, rfl⟩

/-- Number 3 is not a type, and `decode_frame` returns a frame of it; number 200 is not in its range,
and `read_frame` returns a frame of it all the same. -/
theorem frames_not_exact : ¬ DecodedExactly crc32c (encodeFrame crc32c 3 []) ∧
    ¬ DecodedExactly crc32c (encodeFrame crc32c 200 []) := by
  have short (type : Word 16) : (encodeFrame crc32c type []).length ≤ maxFrameBytes := by
    simp [encodeFrame, maxFrameBytes]
  refine ⟨fun exact => ?_, not_agree_of_not_ranged (short 200) (by decide)⟩
  have taken := (decodeFrame_eq_ok (short 3)).mpr ⟨by decide, rfl⟩
  exact absurd ((exact.frames 3 []).mp taken).1 (by decide)

/-! ## The sender and the receiver -/

namespace TcpSocket

/-- **The sender** only bounds the payload. -/
theorem exec_writeFrame {s : TcpSocket} (up : s.connected = true) {type : Word 16} {payload : Text} :
    Op.exec (writeFrame digest type payload) s =
      if maxFrameBytes < payload.length then
        (.error (makeError .resourceExhausted "frame exceeds the maximum size"), s)
      else (.ok (), { s with outgoing := s.outgoing ++ encodeFrame digest type payload }) := by
  have open' : (!s.connected) = false := by
    rw [up]
    rfl
  unfold writeFrame writeBytes
  rw [Op.exec_bind, Op.exec_refuseIf]
  by_cases long : maxFrameBytes < payload.length
  · simp only [long, decide_true, if_true]
  · simp only [long, decide_false, if_false, Bool.false_eq_true, Op.exec_get_bind, open']
    rfl

/-- What a list of messages puts on the wire. -/
def emitted (digest : Text → Word 32) (messages : List (MessageType × Text)) : Text :=
  messages.flatMap fun m => encodeFrame digest m.1.code m.2

theorem exec_writeFrames_ok :
    ∀ {messages : List (MessageType × Text)} {s s' : TcpSocket}, s.connected = true →
      Op.exec (writeFrames digest messages) s = (.ok (), s') →
        s'.outgoing = s.outgoing ++ emitted digest messages ∧
          ∀ m ∈ messages, m.2.length ≤ maxFrameBytes
  | [], s, s', up, run => by
    obtain rfl : s = s' := (Prod.mk.inj run).2
    simp [emitted]
  | m :: messages, s, s', up, run => by
    obtain ⟨⟨⟩, middle, first, rest⟩ := Op.exec_bind_ok run
    rw [exec_writeFrame up] at first
    by_cases long : maxFrameBytes < m.2.length
    · rw [if_pos long] at first
      cases first
    · rw [if_neg long] at first
      obtain rfl := (Prod.mk.inj first).2
      obtain ⟨bytes, few⟩ := @exec_writeFrames_ok messages
        { s with outgoing := s.outgoing ++ encodeFrame digest m.1.code m.2 } s' up rest
      refine ⟨by simp [bytes, emitted], ?_⟩
      rw [List.forall_mem_cons]
      exact ⟨not_lt.mp long, few⟩

/-- Payloads within the limit are sent. -/
theorem exec_writeFrames :
    ∀ {messages : List (MessageType × Text)} {s : TcpSocket}, s.connected = true →
      (∀ m ∈ messages, m.2.length ≤ maxFrameBytes) → Op.exec (writeFrames digest messages) s =
        (.ok (), { s with outgoing := s.outgoing ++ emitted digest messages })
  | [], s, _, _ => by
    simp [writeFrames, Op.each, emitted]
  | m :: messages, s, up, few => by
    rw [List.forall_mem_cons] at few
    have first := @exec_writeFrame digest s up m.1.code m.2
    rw [if_neg (not_lt.mpr few.1)] at first
    have ih := @exec_writeFrames messages
      { s with outgoing := s.outgoing ++ encodeFrame digest m.1.code m.2 } up few.2
    rw [writeFrames, Op.each, Op.exec_bind_of_ok first]
    refine ih.trans ?_
    simp [emitted]

/-- **The receiver** takes a frame off the wire exactly if the whole frame is within the limit. -/
theorem exec_readFrame_sent {s : TcpSocket} (up : s.connected = true) {type : Word 16}
    {payload rest : Text} (sent : payload.length ≤ maxFrameBytes)
    (front : s.incoming = encodeFrame digest type payload ++ rest) :
    (payload.length + frameHeaderBytes ≤ maxFrameBytes →
      Op.exec (readFrame digest maxFrameBytes) s =
        (.ok { type, payload }, { s with incoming := rest })) ∧
    (¬ payload.length + frameHeaderBytes ≤ maxFrameBytes →
      ∀ frame, (Op.exec (readFrame digest maxFrameBytes) s).1 ≠ .ok frame) := by
  have whole : (headerOf digest type payload).length.val = frameHeaderBytes + payload.length := by
    unfold maxFrameBytes at sent
    apply headerOf_length
    unfold frameHeaderBytes
    omega
  rw [encodeFrame, List.append_assoc] at front
  obtain ⟨result, state⟩ := @exec_readFrame digest s up maxFrameBytes _ payload rest front whole
  constructor
  · intro inside
    have taken : verdict digest maxFrameBytes (headerOf digest type payload) payload =
        .ok { type, payload } := (verdict_eq_ok whole).mpr ⟨rfl, by omega, rfl⟩
    exact Prod.ext (result.trans taken) (state _ taken)
  · intro outside frame ok
    have taken : verdict digest maxFrameBytes (headerOf digest type payload) payload = .ok frame :=
      result.symm.trans ok
    have inside := ((verdict_eq_ok whole).mp taken).2.1
    omega

/-- The frames of the messages come back, as long as each is within the limit. -/
theorem exec_readFrames_sent :
    ∀ {messages : List (MessageType × Text)} {s : TcpSocket} {rest : Text}, s.connected = true →
      s.incoming = emitted digest messages ++ rest → (∀ m ∈ messages, m.2.length ≤ maxFrameBytes) →
        (Op.exec (readFrames digest messages.length) s =
            (.ok (messages.map fun m => { type := m.1.code, payload := m.2 }),
              { s with incoming := rest }) ↔
          ∀ m ∈ messages, m.2.length + frameHeaderBytes ≤ maxFrameBytes)
  | [], s, rest, up, front, _ => by
    obtain rfl : s.incoming = rest := by simpa [emitted] using front
    simp [readFrames]
  | m :: messages, s, rest, up, front, sent => by
    rw [List.forall_mem_cons] at sent ⊢
    have split : s.incoming = encodeFrame digest m.1.code m.2 ++ (emitted digest messages ++ rest) := by
      simpa [emitted] using front
    obtain ⟨taken, refused⟩ := exec_readFrame_sent up sent.1 split
    by_cases inside : m.2.length + frameHeaderBytes ≤ maxFrameBytes
    · have ih := @exec_readFrames_sent messages
        { s with incoming := emitted digest messages ++ rest } rest up rfl sent.2
      simp only [inside, true_and]
      rw [← ih, List.length_cons, readFrames, Op.exec_bind_of_ok (taken inside), Op.exec_bind]
      rcases Op.exec (readFrames digest messages.length) _ with ⟨_ | frames, s'⟩ <;> simp
    · simp only [inside, false_and, iff_false]
      intro run
      obtain ⟨frame, s', first, -⟩ := Op.exec_bind_ok run
      exact refused inside frame (congrArg Prod.fst first)

end TcpSocket

/-- **What one peer sends the other receives**, frame by frame and with the stream behind the last
one, if and only if every payload leaves room for the header: the sender bounds the payload by the
limit, and the receiver bounds the whole frame by it. -/
theorem frames_delivered_iff (digest : Text → Word 32) (messages : List (MessageType × Text))
    (sender sender' : TcpSocket) (up : sender.connected = true)
    (sent : Op.exec (TcpSocket.writeFrames digest messages) sender = (.ok (), sender')) :
    (∀ bytes, sender'.outgoing = sender.outgoing ++ bytes →
      ∀ (receiver : TcpSocket) (rest : Text), receiver.connected = true →
        receiver.incoming = bytes ++ rest →
          Op.exec (TcpSocket.readFrames digest messages.length) receiver =
            (.ok (messages.map fun m => { type := m.1.code, payload := m.2 }),
              { receiver with incoming := rest })) ↔
      ∀ m ∈ messages, m.2.length + frameHeaderBytes ≤ maxFrameBytes := by
  obtain ⟨outgoing, few⟩ := TcpSocket.exec_writeFrames_ok up sent
  constructor
  · intro received
    have run := received _ outgoing { incoming := TcpSocket.emitted digest messages ++ [] } [] rfl rfl
    exact (TcpSocket.exec_readFrames_sent (s := { incoming := TcpSocket.emitted digest messages ++ [] })
      rfl rfl few).mp run
  · intro room bytes same receiver rest open' front
    rw [outgoing] at same
    obtain rfl := List.append_cancel_left same
    exact (TcpSocket.exec_readFrames_sent open' front few).mpr room

/-- Two small messages arrive. -/
theorem frames_delivered_two :
    Op.exec (TcpSocket.readFrames crc32c 2)
        { incoming := TcpSocket.emitted crc32c [(.hello, []), (.ok, ascii "done")] ++ [] } =
      (.ok [⟨1, []⟩, ⟨100, ascii "done"⟩], {}) := by
  have few : ∀ m ∈ [(MessageType.hello, []), (MessageType.ok, ascii "done")],
      m.2.length + frameHeaderBytes ≤ maxFrameBytes := by decide
  exact (frames_delivered_iff crc32c _ {} _ rfl
    (TcpSocket.exec_writeFrames rfl fun m hm => Nat.le_of_add_right_le (few m hm))).mpr few
      _ rfl { incoming := _ } [] rfl rfl

/-- A payload as long as the limit is sent and not received. -/
theorem not_received_of_length {payload : Text} (size : payload.length = maxFrameBytes) :
    (Op.exec (TcpSocket.writeFrames digest [(.ok, payload)]) {}).1 = .ok () ∧
    ∀ frame, (Op.exec (TcpSocket.readFrame digest maxFrameBytes)
      { incoming := TcpSocket.emitted digest [(.ok, payload)] }).1 ≠ .ok frame := by
  constructor
  · have sent := @TcpSocket.exec_writeFrames digest [(.ok, payload)] {} rfl (by simp [size])
    rw [sent]
  · have taken := @TcpSocket.exec_readFrame_sent digest
      { incoming := TcpSocket.emitted digest [(.ok, payload)] } rfl
      MessageType.ok.code payload [] (le_of_eq size) (by simp [TcpSocket.emitted])
    exact taken.2 (by simp [size, frameHeaderBytes])

/-- A mebibyte of zeros. -/
theorem frames_not_delivered :
    (Op.exec (TcpSocket.writeFrames crc32c [(.ok, List.replicate maxFrameBytes 0)]) {}).1 = .ok () ∧
    ∀ frame, (Op.exec (TcpSocket.readFrame crc32c maxFrameBytes)
      { incoming := TcpSocket.emitted crc32c [(.ok, List.replicate maxFrameBytes 0)] }).1 ≠
        .ok frame :=
  not_received_of_length List.length_replicate

end Brf
