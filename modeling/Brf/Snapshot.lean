import Brf.JournalLaws

/-!
# The snapshot file

Model of the bytes of `fabric.brfsnap` in `src/store.cpp`: what `Store::write_snapshot` writes, and what
`read_snapshot_file` accepts. A header of 32 bytes with a checksum of its own, the payload, and a seal
with a checksum of everything before it.

* The digest is a parameter, as for the journal.
* The coordinator's model reads and writes whole `SnapshotFile`s; `readSnapshotBytes_snapshotBytes`
  says that this is what the bytes give.

Results: `snapshot_roundTrip_iff`: the writer bounds the payload and the reader bounds the whole file,
so the payloads of the last forty lengths are written and not read; no truncated or extended file is
read.
-/

namespace Brf

open Brf.Lib

/-- `kSnapshotMagic`. -/
def snapshotMagic : Text := ascii "BRFS"

/-- `kSnapshotSeal`. -/
def snapshotSeal : Text := ascii "SEAL"

/-- `kSnapshotHeaderBytes`. -/
def snapshotHeaderBytes : Nat := 32

/-- `kSnapshotFooterBytes`. -/
def snapshotFooterBytes : Nat := 8

section

variable (digest : Text → Word 32)

/-- The header before its own checksum. -/
def snapshotFront (s : SnapshotFile) : Text :=
  snapshotMagic ++ (leBytes 2 durableFormatVersion.val ++ (leBytes 2 0 ++
    (leBytes 8 s.sequence.val ++ (leBytes 8 s.payload.length ++ leBytes 4 (digest s.payload).val))))

/-- The file before the checksum of the seal. -/
def snapshotBody (s : SnapshotFile) : Text :=
  snapshotFront digest s ++ (leBytes 4 (digest (snapshotFront digest s)).val ++
    (s.payload ++ snapshotSeal))

/-- The file that `write_snapshot` composes. -/
def snapshotBytes (s : SnapshotFile) : Text :=
  snapshotBody digest s ++ leBytes 4 (digest (snapshotBody digest s)).val

/-- `Store::write_snapshot`: the bytes that replace the file, or a refusal. -/
def writeSnapshotBytes (lastSequence : DurableSequence) (payload : Text) : Result Text := do
  refuse (maxSnapshotPayload < payload.length) .resourceExhausted
    "snapshot exceeds the payload bound"
  .ok (snapshotBytes digest { sequence := lastSequence, payload })

/-- `read_snapshot_file`: the payload, and the sequence that it reports. -/
def readSnapshotBytes (file : Option Text) : Result SnapshotFile := do
  let bytes ← readAll file maxSnapshotPayload
  refuse (bytes.length < snapshotHeaderBytes + snapshotFooterBytes) .corrupt
    "snapshot file is too small to be valid"
  refuse (bytes.take 4 != snapshotMagic) .corrupt "snapshot magic is invalid"
  refuse (leValue ((bytes.drop 4).take 2) != durableFormatVersion.val) .unsupported
    "snapshot format version is not supported"
  let sequence : DurableSequence := Word.cast 64 (leValue ((bytes.drop 8).take 8))
  let payloadLength := leValue ((bytes.drop 16).take 8)
  let payloadCrc := leValue ((bytes.drop 24).take 4)
  let headerCrc := leValue ((bytes.drop 28).take 4)
  refuse (headerCrc != (digest (bytes.take 28)).val) .corrupt "snapshot header checksum mismatch"
  refuse (bytes.length - snapshotHeaderBytes - snapshotFooterBytes < payloadLength) .corrupt
    "snapshot payload length exceeds the file size"
  refuse (bytes.length != snapshotHeaderBytes + payloadLength + snapshotFooterBytes) .corrupt
    "snapshot size does not match its declared payload length"
  let payload := (bytes.drop snapshotHeaderBytes).take payloadLength
  refuse ((digest payload).val != payloadCrc) .corrupt "snapshot payload checksum mismatch"
  let footer := bytes.drop (snapshotHeaderBytes + payloadLength)
  refuse (footer.take 4 != snapshotSeal) .corrupt "snapshot seal is missing"
  let sealCrc := leValue ((footer.drop 4).take 4)
  refuse (sealCrc != (digest (bytes.take (bytes.length - 4))).val) .corrupt
    "snapshot seal checksum mismatch"
  .ok { sequence, payload }

end

variable {digest : Text → Word 32}

/-- The whole header. -/
def snapshotHeader (digest : Text → Word 32) (s : SnapshotFile) : Text :=
  snapshotFront digest s ++ leBytes 4 (digest (snapshotFront digest s)).val

/-- What follows the header. -/
def snapshotTail (digest : Text → Word 32) (s : SnapshotFile) : Text :=
  s.payload ++ (snapshotSeal ++ leBytes 4 (digest (snapshotBody digest s)).val)

@[simp] theorem snapshotFront_length (s : SnapshotFile) : (snapshotFront digest s).length = 28 := by
  simp [snapshotFront, snapshotMagic, ascii]

@[simp] theorem snapshotHeader_length (s : SnapshotFile) :
    (snapshotHeader digest s).length = snapshotHeaderBytes := by
  simp [snapshotHeader, snapshotHeaderBytes]

@[simp] theorem snapshotTail_length (s : SnapshotFile) :
    (snapshotTail digest s).length = s.payload.length + snapshotFooterBytes := by
  simp [snapshotTail, snapshotSeal, snapshotFooterBytes, ascii]

theorem snapshotBytes_eq (s : SnapshotFile) :
    snapshotBytes digest s = snapshotHeader digest s ++ snapshotTail digest s := by
  simp [snapshotBytes, snapshotBody, snapshotHeader, snapshotTail]

/-- A file that is there is read whole if it is not too large. -/
theorem readAll_some_bind {α : Type} (bytes : Text) (bound : Nat) (f : Text → Result α) :
    readAll (some bytes) bound >>= f = (do
      refuse (bound < bytes.length) .resourceExhausted "file exceeds the supported size"
      f bytes) := by
  unfold readAll
  simp only [bind_assoc]
  rfl

/-- What the reader does behind a whole header. -/
theorem readSnapshotBytes_header {s : SnapshotFile} (small : s.payload.length < 256 ^ 8)
    (tail : Text) : readSnapshotBytes digest (some (snapshotHeader digest s ++ tail)) = (do
      refuse (maxSnapshotPayload < snapshotHeaderBytes + tail.length) .resourceExhausted
        "file exceeds the supported size"
      refuse (snapshotHeaderBytes + tail.length < snapshotHeaderBytes + snapshotFooterBytes) .corrupt
        "snapshot file is too small to be valid"
      refuse (snapshotHeaderBytes + tail.length - snapshotHeaderBytes - snapshotFooterBytes <
        s.payload.length) .corrupt "snapshot payload length exceeds the file size"
      refuse (snapshotHeaderBytes + tail.length !=
        snapshotHeaderBytes + s.payload.length + snapshotFooterBytes) .corrupt
        "snapshot size does not match its declared payload length"
      refuse ((digest (tail.take s.payload.length)).val != (digest s.payload).val) .corrupt
        "snapshot payload checksum mismatch"
      refuse ((tail.drop s.payload.length).take 4 != snapshotSeal) .corrupt
        "snapshot seal is missing"
      refuse (leValue (((tail.drop s.payload.length).drop 4).take 4) !=
        (digest ((snapshotHeader digest s ++ tail).take
          (snapshotHeaderBytes + tail.length - 4))).val) .corrupt "snapshot seal checksum mismatch"
      .ok { sequence := s.sequence, payload := tail.take s.payload.length }) := by
  generalize whole : snapshotHeader digest s ++ tail = bytes
  have len : bytes.length = snapshotHeaderBytes + tail.length := by
    rw [← whole, List.length_append, snapshotHeader_length]
  have magic : bytes.take 4 = snapshotMagic := by
    rw [← whole]
    rfl
  have version : leValue ((bytes.drop 4).take 2) = durableFormatVersion.val :=
    leField_eq snapshotMagic (by
      rw [← whole]
      simp only [snapshotHeader, snapshotFront, List.append_assoc]
      rfl) rfl (by decide)
  have sequence : leValue ((bytes.drop 8).take 8) = s.sequence.val :=
    leField_eq (snapshotMagic ++ (leBytes 2 durableFormatVersion.val ++ leBytes 2 0)) (by
      rw [← whole]
      simp only [snapshotHeader, snapshotFront, List.append_assoc]
      rfl) rfl s.sequence.isLt
  have length : leValue ((bytes.drop 16).take 8) = s.payload.length :=
    leField_eq (snapshotMagic ++ (leBytes 2 durableFormatVersion.val ++ (leBytes 2 0 ++
      leBytes 8 s.sequence.val))) (by
      rw [← whole]
      simp only [snapshotHeader, snapshotFront, List.append_assoc]
      rfl) (by simp [snapshotMagic, ascii]) small
  have payloadCrc : leValue ((bytes.drop 24).take 4) = (digest s.payload).val :=
    leField_eq (snapshotMagic ++ (leBytes 2 durableFormatVersion.val ++ (leBytes 2 0 ++
      (leBytes 8 s.sequence.val ++ leBytes 8 s.payload.length)))) (by
      rw [← whole]
      simp only [snapshotHeader, snapshotFront, List.append_assoc]
      rfl) (by simp [snapshotMagic, ascii]) (digest s.payload).isLt
  have headerCrc : leValue ((bytes.drop 28).take 4) = (digest (snapshotFront digest s)).val :=
    leField_eq (snapshotFront digest s) (by
      rw [← whole]
      simp only [snapshotHeader, List.append_assoc]
      rfl) (snapshotFront_length s) (digest (snapshotFront digest s)).isLt
  have front : bytes.take 28 = snapshotFront digest s := by
    rw [← whole, snapshotHeader, List.append_assoc]
    exact List.take_left' (snapshotFront_length s)
  have body : bytes.drop snapshotHeaderBytes = tail := by
    rw [← whole]
    exact List.drop_left' (snapshotHeader_length s)
  have footer : bytes.drop (snapshotHeaderBytes + s.payload.length) =
      tail.drop s.payload.length := by
    rw [← List.drop_drop, body]
  unfold readSnapshotBytes
  simp only [readAll_some_bind, magic, version, sequence, length, payloadCrc, headerCrc, front, body,
    footer, len, bne_self_eq_false, Word.cast_val]
  rfl

/-! ## The round trip -/

/-- **A whole file** is read back if it is within the bound of `read_all`. -/
theorem readSnapshotBytes_snapshotBytes {s : SnapshotFile} (small : s.payload.length < 256 ^ 8) :
    readSnapshotBytes digest (some (snapshotBytes digest s)) = (do
      refuse (maxSnapshotPayload < s.payload.length + snapshotFramingBytes) .resourceExhausted
        "file exceeds the supported size"
      .ok s) := by
  have framing : snapshotHeaderBytes + (s.payload.length + snapshotFooterBytes) =
      s.payload.length + snapshotFramingBytes := by
    simp only [snapshotHeaderBytes, snapshotFooterBytes, snapshotFramingBytes]
    omega
  have large : decide (s.payload.length + snapshotFramingBytes <
      snapshotHeaderBytes + snapshotFooterBytes) = false := by
    rw [decide_eq_false_iff_not]
    simp only [snapshotHeaderBytes, snapshotFooterBytes, snapshotFramingBytes]
    omega
  have inside : decide (s.payload.length + snapshotFramingBytes - snapshotHeaderBytes -
      snapshotFooterBytes < s.payload.length) = false := by
    rw [decide_eq_false_iff_not]
    simp only [snapshotHeaderBytes, snapshotFooterBytes, snapshotFramingBytes]
    omega
  have exact : (s.payload.length + snapshotFramingBytes !=
      snapshotHeaderBytes + s.payload.length + snapshotFooterBytes) = false := by
    rw [bne_eq_false_iff_eq]
    simp only [snapshotHeaderBytes, snapshotFooterBytes, snapshotFramingBytes]
    omega
  have payload : (snapshotTail digest s).take s.payload.length = s.payload := List.take_left
  have footer : (snapshotTail digest s).drop s.payload.length =
      snapshotSeal ++ leBytes 4 (digest (snapshotBody digest s)).val := List.drop_left
  have body : (snapshotHeader digest s ++ snapshotTail digest s).take
      (s.payload.length + snapshotFramingBytes - 4) = snapshotBody digest s := by
    rw [← snapshotBytes_eq, snapshotBytes]
    apply List.take_left'
    simp [snapshotBody, snapshotSeal, snapshotFramingBytes, ascii]
    omega
  have sealed : (snapshotSeal ++ leBytes 4 (digest (snapshotBody digest s)).val).take 4 =
      snapshotSeal := rfl
  have sealCrc : leValue (((snapshotSeal ++ leBytes 4 (digest (snapshotBody digest s)).val).drop
      4).take 4) = (digest (snapshotBody digest s)).val :=
    leField_eq snapshotSeal (List.append_nil _).symm rfl (digest (snapshotBody digest s)).isLt
  rw [snapshotBytes_eq, readSnapshotBytes_header small, snapshotTail_length, framing]
  simp only [large, inside, exact, payload, footer, body, sealed, sealCrc, bne_self_eq_false]
  rfl

/-- The coordinator's model reads what the bytes of its file say. -/
theorem readSnapshotFile_bytes {s : SnapshotFile} (small : s.payload.length < 256 ^ 8) :
    Store.readSnapshotFile { snapshot := some s } =
      some <$> readSnapshotBytes digest (some (snapshotBytes digest s)) := by
  rw [readSnapshotBytes_snapshotBytes small, Store.readSnapshotFile]
  dsimp only
  cases decide (maxSnapshotPayload < s.payload.length + snapshotFramingBytes) <;> rfl

/-- A file behind a whole header whose length is not the declared one is refused. -/
theorem readSnapshotBytes_resized {s : SnapshotFile} (small : s.payload.length < 256 ^ 8)
    {tail : Text} (other : tail.length ≠ s.payload.length + snapshotFooterBytes)
    (found : SnapshotFile) :
    readSnapshotBytes digest (some (snapshotHeader digest s ++ tail)) ≠ .ok found := by
  intro run
  rw [readSnapshotBytes_header small] at run
  simp only [check_bind_eq_ok, refuse_eq_ok] at run
  obtain ⟨-, -, -, exact, -⟩ := run
  rw [bne_eq_false_iff_eq] at exact
  omega

/-- A file without a whole header is refused. -/
theorem readSnapshotBytes_short {bytes : Text} (short : bytes.length < snapshotHeaderBytes)
    (found : SnapshotFile) : readSnapshotBytes digest (some bytes) ≠ .ok found := by
  intro run
  unfold readSnapshotBytes at run
  simp only [readAll_some_bind, check_bind_eq_ok, refuse_eq_ok, decide_eq_false_iff_not] at run
  omega

/-- **Truncated files** are refused. -/
theorem readSnapshotBytes_truncated {s : SnapshotFile} (small : s.payload.length < 256 ^ 8) {n : Nat}
    (short : n < (snapshotBytes digest s).length) (found : SnapshotFile) :
    readSnapshotBytes digest (some ((snapshotBytes digest s).take n)) ≠ .ok found := by
  rw [snapshotBytes_eq, List.length_append, snapshotHeader_length, snapshotTail_length] at short
  rw [snapshotBytes_eq, List.take_append, snapshotHeader_length]
  by_cases whole : snapshotHeaderBytes ≤ n
  · rw [List.take_of_length_le (by simpa using whole)]
    refine readSnapshotBytes_resized small ?_ found
    rw [List.length_take, snapshotTail_length]
    omega
  · refine readSnapshotBytes_short ?_ found
    simp only [List.length_append, List.length_take, snapshotHeader_length, snapshotTail_length]
    omega

/-- **Extended files** are refused. -/
theorem readSnapshotBytes_extended {s : SnapshotFile} (small : s.payload.length < 256 ^ 8)
    {more : Text} (some_more : more ≠ []) (found : SnapshotFile) :
    readSnapshotBytes digest (some (snapshotBytes digest s ++ more)) ≠ .ok found := by
  rw [snapshotBytes_eq, List.append_assoc]
  refine readSnapshotBytes_resized small ?_ found
  have pos := List.length_pos_iff.mpr some_more
  rw [List.length_append, snapshotTail_length]
  omega

/-- **Snapshot files round-trip**, and no truncation or extension of them is read, if and only if the
payload leaves room for the header and the seal: the writer bounds the payload by
`max_snapshot_payload`, and the reader bounds the whole file by the same number. -/
theorem snapshot_roundTrip_iff (digest : Text → Word 32) (lastSequence : DurableSequence)
    (payload file : Text) (written : writeSnapshotBytes digest lastSequence payload = .ok file) :
    (readSnapshotBytes digest (some file) = .ok { sequence := lastSequence, payload } ∧
      (∀ n < file.length, ∀ found, readSnapshotBytes digest (some (file.take n)) ≠ .ok found) ∧
      (∀ more ≠ [], ∀ found, readSnapshotBytes digest (some (file ++ more)) ≠ .ok found)) ↔
      payload.length + snapshotFramingBytes ≤ maxSnapshotPayload := by
  obtain ⟨accepted, same⟩ := check_bind_eq_ok.mp written
  obtain rfl := Except.ok.inj same
  have few : payload.length ≤ maxSnapshotPayload := by simpa using accepted
  have small : payload.length < 256 ^ 8 := by
    unfold maxSnapshotPayload at few
    omega
  have whole := @readSnapshotBytes_snapshotBytes digest { sequence := lastSequence, payload } small
  rw [whole, check_bind_eq_ok, refuse_eq_ok, decide_eq_false_iff_not, not_lt]
  constructor
  · rintro ⟨⟨room, -⟩, -⟩
    exact room
  · intro room
    exact ⟨⟨room, rfl⟩, fun n short found => readSnapshotBytes_truncated small short found,
      fun more some_more found => readSnapshotBytes_extended small some_more found⟩

/-- An empty snapshot comes back. -/
theorem snapshot_roundTrip_empty :
    readSnapshotBytes crc32c (some (snapshotBytes crc32c { sequence := 7, payload := [] })) =
      .ok { sequence := 7, payload := [] } :=
  ((snapshot_roundTrip_iff crc32c 7 [] _ rfl).mpr (by decide)).1

/-- The largest payload that is written is not read. -/
theorem snapshot_not_roundTrip :
    writeSnapshotBytes crc32c 7 (List.replicate maxSnapshotPayload 0) =
        .ok (snapshotBytes crc32c { sequence := 7, payload := List.replicate maxSnapshotPayload 0 }) ∧
      readSnapshotBytes crc32c
        (some (snapshotBytes crc32c { sequence := 7, payload := List.replicate maxSnapshotPayload 0 })) =
          .error (makeError .resourceExhausted "file exceeds the supported size") := by
  have size : (List.replicate maxSnapshotPayload (0 : Byte)).length = maxSnapshotPayload :=
    List.length_replicate
  constructor
  · unfold writeSnapshotBytes
    rw [size]
    rfl
  · rw [readSnapshotBytes_snapshotBytes (by rw [size]; decide), size]
    rfl

end Brf
