import Brf.Codec
import Brf.Lib.Op

/-!
# Frames on the wire

Model of the framing of `src/protocol.cpp` and of the frame methods of `src/transport.cpp`: a header
of sixteen bytes and a payload.

* Two functions parse the header, each with its own checks: `decodeFrame` on a whole byte string, and
  `TcpSocket.readFrame` on what arrives.
* A `MessageType` of the source is any 16-bit number; the declared ones are the members of
  `MessageType` here.
* The digest of a payload is a parameter: the reader and the writer only need the same function.
* A socket is the bytes that are still to be received and those that have been sent.

Out of scope: the payload codecs of the requests and responses, and a send that fails.
-/

namespace Brf

open Brf.Lib

/-- `kMaxFrameBytes`. -/
def maxFrameBytes : Nat := 1048576

/-- `kFrameMagic`. -/
def frameMagic : Word 32 := 0x46524231

/-- `kFrameHeaderBytes`. -/
def frameHeaderBytes : Nat := 16

/-- `kWireProtocolVersion`. -/
def wireProtocolVersion : Word 16 := Word.cast 16 1

/-- The declared members of `MessageType`. -/
inductive MessageType where
  | hello | helloAck | ingestCapacity | ingestPathAuthority | ingestPolicy | registerClaimant | fence
  | validate | commit | amend | release | recall | revoke | revalidate | reconcileAttempt
  | reconcileLifecycle | getReservation | queryClaimant | queryResource | queryCommitted
  | queryRemaining | explainConflicts | timeline | lineage | overcommitReport | stats | durableReplay
  | holdAcquire | holdRelease | holdQuery | sessionRelease | shutdown | ok | error
  deriving DecidableEq, Repr

instance : Enumeration MessageType where
  all := [.hello, .helloAck, .ingestCapacity, .ingestPathAuthority, .ingestPolicy,
    .registerClaimant, .fence, .validate, .commit, .amend, .release, .recall, .revoke, .revalidate,
    .reconcileAttempt, .reconcileLifecycle, .getReservation, .queryClaimant, .queryResource,
    .queryCommitted, .queryRemaining, .explainConflicts, .timeline, .lineage, .overcommitReport,
    .stats, .durableReplay, .holdAcquire, .holdRelease, .holdQuery, .sessionRelease, .shutdown, .ok,
    .error]
  complete x := by cases x <;> decide

/-- The number of a declared member. -/
def MessageType.number : MessageType → Nat
  | .hello => 1
  | .helloAck => 2
  | .ingestCapacity => 10
  | .ingestPathAuthority => 11
  | .ingestPolicy => 12
  | .registerClaimant => 13
  | .fence => 14
  | .validate => 20
  | .commit => 21
  | .amend => 22
  | .release => 23
  | .recall => 24
  | .revoke => 25
  | .revalidate => 26
  | .reconcileAttempt => 27
  | .reconcileLifecycle => 28
  | .getReservation => 30
  | .queryClaimant => 31
  | .queryResource => 32
  | .queryCommitted => 33
  | .queryRemaining => 34
  | .explainConflicts => 35
  | .timeline => 36
  | .lineage => 37
  | .overcommitReport => 38
  | .stats => 39
  | .durableReplay => 40
  | .holdAcquire => 50
  | .holdRelease => 51
  | .holdQuery => 52
  | .sessionRelease => 53
  | .shutdown => 60
  | .ok => 100
  | .error => 101

/-- `static_cast<std::uint16_t>` of a declared member. -/
def MessageType.code (m : MessageType) : Word 16 := Word.cast 16 m.number

/-- The number is a member of `MessageType`. -/
def Declared (type : Word 16) : Prop := ∃ m : MessageType, m.code = type

instance (type : Word 16) : Decidable (Declared type) :=
  decidable_of_iff (∃ m ∈ Enumeration.all (α := MessageType), m.code = type)
    ⟨fun ⟨m, _, h⟩ => ⟨m, h⟩, fun ⟨m, h⟩ => ⟨m, Enumeration.complete m, h⟩⟩

/-- `Frame`. -/
structure Frame where
  type : Word 16 := MessageType.error.code
  payload : Text := []
  deriving DecidableEq, Repr

/-- The header of a frame. -/
structure FrameHeader where
  magic : Word 32
  length : Word 32
  checksum : Word 32
  type : Word 16
  version : Word 16
  deriving DecidableEq, Repr

/-- The sixteen bytes of a header. -/
def FrameHeader.bytes (h : FrameHeader) : Text :=
  List.flatten [encode h.magic, encode h.length, encode h.checksum, encode h.type, encode h.version]

/-- The header that `encode_frame` puts before a payload; the length is cut to 32 bits. -/
def headerOf (digest : Text → Word 32) (type : Word 16) (payload : Text) : FrameHeader :=
  { magic := frameMagic
    length := Word.cast 32 (frameHeaderBytes + payload.length)
    checksum := digest payload
    type
    version := wireProtocolVersion }

/-- `encode_frame`. -/
def encodeFrame (digest : Text → Word 32) (type : Word 16) (payload : Text) : Text :=
  (headerOf digest type payload).bytes ++ payload

/-- The reader part of `decode_frame`, on the bytes of the frame. -/
def frameReader (digest : Text → Word 32) (bytes : Text) : Reader Error Frame := do
  let magic : Word 32 ← decode
  failIf (magic != frameMagic) (makeError .corrupt "frame magic is invalid")
  let length : Word 32 ← decode
  failIf (length.val != bytes.length)
    (makeError .corrupt "frame length does not match the received bytes")
  let checksum : Word 32 ← decode
  let type : Word 16 ← decode
  let version : Word 16 ← decode
  failIf (version != wireProtocolVersion)
    (makeError .unsupported "frame protocol version is not supported")
  let payload := bytes.drop frameHeaderBytes
  failIf (digest payload != checksum) (makeError .corrupt "frame checksum mismatch")
  failIf (type.val < 1 || MessageType.error.code.val < type.val)
    (makeError .unsupported "frame declares an unknown message type")
  pure { type, payload }

/-- `decode_frame`. -/
def decodeFrame (digest : Text → Word 32) (bytes : Text) : Result Frame := do
  refuse (bytes.length < frameHeaderBytes) .corrupt "frame is shorter than its header"
  (frameReader digest bytes).run' bytes

/-! ## Sockets -/

/-- `TcpSocket`: whether it is connected, what is still to be received, and what has been sent. -/
structure TcpSocket where
  connected : Bool := true
  incoming : Text := []
  outgoing : Text := []
  deriving DecidableEq, Repr

namespace TcpSocket

/-- A method of a socket. -/
abbrev Method := Op Error TcpSocket

/-- `receive_exact`: what has arrived is consumed even if it is not enough. -/
def receiveExact (size : Nat) : Method Text := do
  let s ← get
  set { s with incoming := s.incoming.drop size }
  Op.refuseIf (s.incoming.length < size) (makeError .cancelled "peer closed the connection")
  pure (s.incoming.take size)

/-- `TcpSocket::write_bytes`. -/
def writeBytes (bytes : Text) : Method Unit := do
  Op.refuseIf (!(← get).connected) (makeError .io "socket is not connected")
  modify fun s => { s with outgoing := s.outgoing ++ bytes }

/-- `TcpSocket::write_frame`. -/
def writeFrame (digest : Text → Word 32) (type : Word 16) (payload : Text) : Method Unit := do
  Op.refuseIf (maxFrameBytes < payload.length)
    (makeError .resourceExhausted "frame exceeds the maximum size")
  writeBytes (encodeFrame digest type payload)

/-- What `read_frame` does with the header it has received. -/
def headerReader (bound : Nat) : Reader Error FrameHeader := do
  let magic : Word 32 ← decode
  failIf (magic != frameMagic) (makeError .corrupt "frame magic is invalid")
  let length : Word 32 ← decode
  failIf (length.val < frameHeaderBytes || bound < length.val)
    (makeError .resourceExhausted "frame declares an unsupported length")
  let checksum : Word 32 ← decode
  let type : Word 16 ← decode
  let version : Word 16 ← decode
  failIf (version != wireProtocolVersion)
    (makeError .unsupported "frame protocol version is not supported")
  pure { magic, length, checksum, type, version }

/-- `TcpSocket::read_frame`. -/
def readFrame (digest : Text → Word 32) (bound : Nat) : Method Frame := do
  Op.refuseIf (!(← get).connected) (makeError .io "socket is not connected")
  let header ← receiveExact frameHeaderBytes
  let header ← Op.lift ((headerReader bound).run' header)
  -- Nothing is received for an empty payload.
  let payload ← receiveExact (header.length.val - frameHeaderBytes)
  Op.refuseIf (digest payload != header.checksum) (makeError .corrupt "frame checksum mismatch")
  pure { type := header.type, payload }

/-- One frame after the other is sent. -/
def writeFrames (digest : Text → Word 32) (messages : List (MessageType × Text)) : Method Unit :=
  Op.each (fun m => writeFrame digest m.1.code m.2) messages

/-- As many frames are received as the peer has sent. -/
def readFrames (digest : Text → Word 32) : Nat → Method (List Frame)
  | 0 => pure []
  | n + 1 => do
    let frame ← readFrame digest maxFrameBytes
    let frames ← readFrames digest n
    pure (frame :: frames)

end TcpSocket

end Brf
