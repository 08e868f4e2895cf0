import Brf.Lib.Frames
import Brf.Spelling
import Brf.Store

/-!
# The journal file

Model of `src/store.cpp` down to the bytes of the journal file: what one append writes, how
`read_journal_file` tells a torn tail from corruption, and how `Store::open` repairs the file.

* `FileStore` is `Store` of the source over a byte string; `Brf.Store` is the same handle over whole
  records, which the coordinator's model runs on.
* The digest of a frame is a parameter: the reader and the writer only need the same function.
  `crc32c` is the function of the source.
* `Write` is the environment's choice for one append: the frame reaches the disk, or the call fails
  after some first part of it did (all of it, when the sync fails).
* The snapshot file is replaced by a rename, so it is old or new; its own bytes are those of
  `Brf.Snapshot`. The options are their defaults, which are the only ones the coordinator uses.

Out of scope: `fabric.brfstore`, the paths in error messages, and the failure of `remove` in a
rotation, which the source ignores.
-/

namespace Brf

open Brf.Lib

/-! ## The digest -/

/-- One bit of a turn of `Crc32cTable`. -/
def crcShift (crc : Nat) : Nat :=
  if crc % 2 = 1 then (crc / 2) ^^^ 0x82F63B78 else crc / 2

/-- `kCrcTable.values[i]`. -/
def crcTable (i : Nat) : Nat := crcShift^[8] i

/-- `crc32c`. -/
def crc32c (bytes : Text) : Word 32 :=
  let crc := bytes.foldl (fun crc b => crcTable ((crc ^^^ b.val) % 256) ^^^ (crc / 256)) 0xFFFFFFFF
  Word.cast 32 (crc ^^^ 0xFFFFFFFF)

/-! ## Frames -/

/-- `kJournalMagic`. -/
def journalMagic : Text := ascii "BRFJ"

/-- A record of the journal and where it stands in the file. -/
structure FiledRecord extends JournalRecord where
  fileOffset : Nat
  deriving DecidableEq, Repr

/-- The bytes before this offset hold the record and all records before it. -/
def FiledRecord.fileEnd (r : FiledRecord) : Nat := r.fileOffset + r.frameBytes

/-- The number of a record kind in the file. -/
def RecordKind.number (kind : RecordKind) : Nat := Enumeration.index kind + 1

/-- `parse_record_kind`. -/
def parseRecordKind (value : Nat) : Result RecordKind :=
  match value with
  | 0 => .error (makeError .invalidArgument "unknown durable record kind")
  | index + 1 => match Enumeration.ofIndex? index with
    | none => .error (makeError .invalidArgument "unknown durable record kind")
    | some kind => .ok kind

/-- The header that `append` puts before a payload. -/
def journalHeader (digest : Text → Word 32) (r : JournalRecord) : Text :=
  journalMagic ++ (leBytes 4 (journalHeaderBytes + r.payload.length) ++
    (leBytes 8 r.sequence.val ++ (leBytes 2 r.kind.number ++ leBytes 4 (digest r.payload).val)))

/-- The bytes of one record. -/
def journalFrame (digest : Text → Word 32) (r : JournalRecord) : Text :=
  journalHeader digest r ++ r.payload

/-- What `read_journal_file` reports about a file that ends inside a record. -/
structure TornTail where
  truncatedBytes : Nat
  detail : Text
  deriving DecidableEq, Repr

/-- One turn of the loop of `read_journal_file`: what stands at `offset`, after `last`. -/
def readFrame (digest : Text → Word 32) (offset : Nat) (last : Option FiledRecord) (bytes : Text) :
    Front Error FiledRecord TornTail :=
  if bytes.length < journalHeaderBytes then
    .torn ⟨bytes.length, ascii "journal ends with a partial record header"⟩
  -- The header is complete, so a wrong magic is corruption, not a torn tail.
  else if bytes.take 4 ≠ journalMagic then
    .refused ⟨.corrupt,
      ascii "journal contains an invalid record magic at offset " ++ toDecimal offset⟩
  else
    let length := leValue ((bytes.drop 4).take 4)
    let sequence : DurableSequence := Word.cast 64 (leValue ((bytes.drop 8).take 8))
    let kindValue := leValue ((bytes.drop 16).take 2)
    let payloadCrc : Word 32 := Word.cast 32 (leValue ((bytes.drop 18).take 4))
    if length < journalHeaderBytes then
      .refused (makeError .corrupt "journal record declares an impossible length")
    else if maxRecordPayload < length - journalHeaderBytes then
      .refused (makeError .resourceExhausted "journal record payload exceeds the bound")
    else if bytes.length < length then
      .torn ⟨bytes.length, ascii "journal ends with a truncated record body"⟩
    else
      let payload := (bytes.drop journalHeaderBytes).take (length - journalHeaderBytes)
      if digest payload ≠ payloadCrc then
        .refused ⟨.corrupt,
          ascii "journal record checksum mismatch at offset " ++ toDecimal offset⟩
      else if last.any fun l => sequence ≤ l.sequence then
        .refused (makeError .corrupt "journal sequence numbers are not strictly increasing")
      else match parseRecordKind kindValue with
        | .error _ => .refused (makeError .corrupt "journal record declares an unknown kind")
        | .ok kind => .record { kind, sequence, payload, fileOffset := offset } length

/-- `read_all`. -/
def readAll (file : Option Text) (maxBytes : Nat) : Result Text :=
  match file with
  | none => .error (makeError .notFound "file does not exist")
  | some bytes => do
    refuse (maxBytes < bytes.length) .resourceExhausted "file exceeds the supported size"
    .ok bytes

/-- `RecoveryReport`. -/
structure RecoveryReport where
  snapshotLoaded : Bool := false
  tornTailTruncated : Bool := false
  truncatedBytes : Nat := 0
  snapshotSequence : Nat := 0
  recordsReplayed : Nat := 0
  recordsSkipped : Nat := 0
  lastSequence : Nat := 0
  detail : Text := []
  deriving DecidableEq, Repr, Inhabited

/-- The sequence of the last record of a list, or `floor` when it is empty. -/
def lastSequenceOf (floor : DurableSequence) (records : List FiledRecord) : DurableSequence :=
  (records.getLast?.map fun r => r.sequence).getD floor

/-- What `read_journal_file` reports. -/
def journalReport (records : List FiledRecord) (torn : Option TornTail) : RecoveryReport :=
  { tornTailTruncated := torn.isSome
    truncatedBytes := (torn.map TornTail.truncatedBytes).getD 0
    detail := (torn.map TornTail.detail).getD []
    recordsReplayed := records.length
    lastSequence := (lastSequenceOf 0 records).val }

/-- `read_journal_file`: the records of a file, and the report about it. -/
def readJournalFile (digest : Text → Word 32) (file : Option Text) :
    Result (List FiledRecord × RecoveryReport) := do
  let bytes ← readAll file maxJournalBytes
  let (records, torn) ← scan (readFrame digest) bytes.length 0 none bytes
  .ok (records, journalReport records torn)

/-! ## The handle -/

/-- The files of a store directory. -/
structure Directory where
  snapshot : Option SnapshotFile := none
  journal : Option Text := none
  deriving DecidableEq, Repr, Inhabited

/-- `Store`: an open handle on the files. -/
structure FileStore where
  directory : Directory := {}
  journalOpen : Bool := true
  lastSequence : DurableSequence := 0
  snapshotSequence : DurableSequence := 0
  journalBytes : Nat := 0
  records : List FiledRecord := []
  report : RecoveryReport := {}
  deriving DecidableEq, Repr, Inhabited

/-- How far the bytes of one append get. -/
inductive Write where
  | synced
  | failed (written : Nat)
  deriving DecidableEq, Repr

namespace FileStore

/-- A method of the store. -/
abbrev Method := Op Error FileStore

/-- The bytes of the journal file. -/
def journal (s : FileStore) : Text := s.directory.journal.getD []

/-- The file after more bytes have reached it. -/
def written (s : FileStore) (bytes : Text) : FileStore :=
  { s with directory := { s.directory with journal := some (s.journal ++ bytes) } }

/-- The error of an append that fails after `n` bytes. -/
def writeError (n : Nat) (payload : Text) : Error :=
  if n < journalHeaderBytes then makeError .io "failed to append a durable record header"
  else if n < journalHeaderBytes + payload.length then
    makeError .io "failed to append a durable record payload"
  else makeError .io "failed to flush durable state to stable storage"

/-- `Store::append`. A failure leaves what it has written in the file and the handle as it was. -/
def append (digest : Text → Word 32) (kind : RecordKind) (payload : Text) (write : Write) :
    Method DurableSequence := do
  let s ← get
  Op.refuseIf (!s.journalOpen) (makeError .io "journal is not open")
  Op.refuseIf (maxRecordPayload < payload.length)
    (makeError .resourceExhausted "durable record exceeds the payload bound")
  let next ← Op.lift s.lastSequence.next
  let record : JournalRecord := { kind, sequence := next, payload }
  let filed : FiledRecord := { record with fileOffset := s.journalBytes }
  let frame := journalFrame digest record
  match write with
  | .failed n =>
    set (s.written (frame.take n))
    throw (writeError n payload)
  | .synced =>
    set { s.written frame with
      journalBytes := s.journalBytes + record.frameBytes
      lastSequence := next
      records := s.records ++ [filed] }
    pure next

/-- `Store::write_snapshot`; `fails` when the file could not be written or renamed. -/
def writeSnapshot (payload : Text) (fails : Bool) : Method DurableSequence := do
  Op.refuseIf (maxSnapshotPayload < payload.length)
    (makeError .resourceExhausted "snapshot exceeds the payload bound")
  Op.refuseIf fails (makeError .io "failed to atomically replace the snapshot file")
  modify fun s => { s with
    directory := { s.directory with snapshot := some { sequence := s.lastSequence, payload } }
    snapshotSequence := s.lastSequence }
  pure (← get).snapshotSequence

/-- `Store::rotate_journal`; `unsynced` when the old file could not be flushed, `lost` when the new
one could not be created. -/
def rotateJournal (unsynced lost : Bool) : Method Unit := do
  Op.refuseIf ((← get).journalOpen && unsynced)
    (makeError .io "failed to flush durable state to stable storage")
  modify fun s => { s with
    directory := { s.directory with journal := none }
    journalOpen := false }
  Op.refuseIf lost (makeError .io "failed to recreate the journal after rotation")
  modify fun s => { s with
    directory := { s.directory with journal := some [] }
    journalOpen := true
    journalBytes := 0
    records := [] }

/-! ## Opening -/

/-- Where `open` cuts a file with a torn tail. -/
def truncateAt (records : List FiledRecord) : Nat :=
  (records.getLast?.map FiledRecord.fileEnd).getD 0

/-- `read_journal_file` inside `open`, where a missing file is an empty one. -/
def readRecords (digest : Text → Word 32) (file : Option Text) :
    Result (List FiledRecord × RecoveryReport) :=
  match readJournalFile digest file with
  | .ok found => .ok found
  | .error e => if e.code = .notFound then .ok ([], {}) else .error e

/-- The journal file that `open` leaves: a torn tail is cut off. -/
def repaired (records : List FiledRecord) (found : RecoveryReport) (bytes : Text) : Text :=
  if found.tornTailTruncated then bytes.take (truncateAt records) else bytes

/-- The handle of `open` on a directory whose snapshot accounts for `floor`. -/
def opened (dir : Directory) (floor : DurableSequence) (records : List FiledRecord)
    (found : RecoveryReport) : FileStore :=
  let journal := repaired records found (dir.journal.getD [])
  let effective := records.filter fun r => floor < r.sequence
  let last := lastSequenceOf floor effective
  { directory := { snapshot := dir.snapshot, journal := some journal }
    lastSequence := last
    snapshotSequence := floor
    journalBytes := journal.length
    records := effective
    report := {
      snapshotLoaded := dir.snapshot.isSome
      tornTailTruncated := found.tornTailTruncated
      truncatedBytes := found.truncatedBytes
      snapshotSequence := floor.val
      recordsReplayed := effective.length
      recordsSkipped := records.length - effective.length
      lastSequence := last.val
      detail := found.detail } }

/-- `Store::open`. -/
def openStore (digest : Text → Word 32) (dir : Directory) : Result FileStore := do
  let snapshot ← Store.readSnapshotFile { snapshot := dir.snapshot }
  let (records, found) ← readRecords digest dir.journal
  .ok (opened dir ((snapshot.map SnapshotFile.sequence).getD 0) records found)

end FileStore

end Brf
