import Brf.Durable
import Brf.Lib.Op

/-!
# The durable store

Model of `include/brf/store.hpp` and `src/store.cpp` at the level of whole records: the directory
holds at most one sealed snapshot and a journal of framed records.

* `Disk` is what survives the process, `Store` the open handle. A record is durable when `append`
  returns; a write that fails or is cut by a crash leaves nothing behind (a torn tail is truncated
  when the store is opened again).
* `faults` is the environment's choice for the coming calls: a call that meets `true` fails with
  `kIo` without having written. A crash inside an operation is a run whose later calls all fail,
  followed by the loss of the handle.
* The sequence number is 64 bits wide. The source adds one without a check; the model refuses the
  append that would exhaust it, which takes 2 ^ 64 appends.
* `rotateJournal` syncs and closes the journal before it removes it, so a failure to open the new
  file leaves the handle without a journal.

Out of scope: the bytes of frames, checksums and the seal; `fabric.brfstore`; the record list that
the handle keeps in memory, which only `open` reads.
-/

namespace Brf

open Brf.Lib

/-- `kJournalHeaderBytes`. -/
def journalHeaderBytes : Nat := 22

/-- `kSnapshotHeaderBytes + kSnapshotFooterBytes`. -/
def snapshotFramingBytes : Nat := 40

/-- `Options::max_record_payload`. -/
def maxRecordPayload : Nat := 4 * 1024 * 1024

/-- `Options::max_snapshot_payload`, which is also the largest snapshot file that is read. -/
def maxSnapshotPayload : Nat := 256 * 1024 * 1024

/-- The largest journal file that is read. -/
def maxJournalBytes : Nat := 1024 * 1024 * 1024

/-- `Options::compact_threshold_bytes`. -/
def compactThresholdBytes : Nat := 8 * 1024 * 1024

/-- `JournalRecord`. -/
structure JournalRecord where
  kind : RecordKind
  sequence : DurableSequence
  payload : Text
  deriving DecidableEq, Repr

/-- The bytes a record takes in the journal. -/
def JournalRecord.frameBytes (r : JournalRecord) : Nat := journalHeaderBytes + r.payload.length

/-- `fabric.brfsnap`: a payload sealed with the sequence it accounts for. -/
structure SnapshotFile where
  sequence : DurableSequence
  payload : Text
  deriving DecidableEq, Repr

/-- The store directory. -/
structure Disk where
  snapshot : Option SnapshotFile := none
  journal : List JournalRecord := []
  deriving DecidableEq, Repr, Inhabited

/-- `Store`: an open handle on the directory. -/
structure Store where
  disk : Disk := {}
  /-- The journal stream is open. -/
  journalOpen : Bool := true
  lastSequence : DurableSequence := 0
  snapshotSequence : DurableSequence := 0
  journalBytes : Nat := 0
  faults : List Bool := []
  deriving DecidableEq, Repr, Inhabited

namespace Store

/-- A method of the store. -/
abbrev Method := Op Error Store

/-- Whether the environment fails the coming call. -/
def takeFault : Method Bool := do
  let s ← get
  match s.faults with
  | [] => pure false
  | fault :: rest =>
    set { s with faults := rest }
    pure fault

/-- `sync_file` and the writes it makes durable. -/
def sync : Method Unit := do
  Op.refuseIf (← takeFault)
    (makeError .io "failed to flush durable state to stable storage")

/-- `Store::append`. -/
def append (kind : RecordKind) (payload : Text) : Method DurableSequence := do
  let s ← get
  Op.refuseIf (!s.journalOpen) (makeError .io "journal is not open")
  Op.refuseIf (maxRecordPayload < payload.length)
    (makeError .resourceExhausted "durable record exceeds the payload bound")
  let next ← Op.lift s.lastSequence.next
  sync
  let record : JournalRecord := { kind, sequence := next, payload }
  modify fun s => { s with
    disk := { s.disk with journal := s.disk.journal ++ [record] }
    lastSequence := next
    journalBytes := s.journalBytes + record.frameBytes }
  pure next

/-- `Store::write_snapshot`: the file is replaced atomically. -/
def writeSnapshot (payload : Text) : Method DurableSequence := do
  Op.refuseIf (maxSnapshotPayload < payload.length)
    (makeError .resourceExhausted "snapshot exceeds the payload bound")
  sync
  modify fun s => { s with
    disk := { s.disk with snapshot := some { sequence := s.lastSequence, payload } }
    snapshotSequence := s.lastSequence }
  pure (← get).snapshotSequence

/-- `Store::rotate_journal`. -/
def rotateJournal : Method Unit := do
  if (← get).journalOpen then sync
  modify fun s => { s with disk := { s.disk with journal := [] }, journalOpen := false }
  Op.refuseIf (← takeFault) (makeError .io "failed to recreate the journal after rotation")
  modify fun s => { s with journalOpen := true, journalBytes := 0 }

/-- `Store::should_compact`. -/
def shouldCompact (s : Store) : Bool := compactThresholdBytes ≤ s.journalBytes

/-! ## Opening -/

/-- `read_snapshot_file`: the file must be within the supported size. -/
def readSnapshotFile (disk : Disk) : Result (Option SnapshotFile) := do
  if let some file := disk.snapshot then
    refuse (maxSnapshotPayload < file.payload.length + snapshotFramingBytes) .resourceExhausted
      "file exceeds the supported size"
  pure disk.snapshot

/-- The loop of `read_journal_file` over whole records. -/
def checkRecords : Option DurableSequence → List JournalRecord → Result Unit
  | _, [] => .ok ()
  | last, r :: rest => do
    refuse (maxRecordPayload < r.payload.length) .resourceExhausted
      "journal record payload exceeds the bound"
    refuse (last.any fun l => r.sequence ≤ l) .corrupt
      "journal sequence numbers are not strictly increasing"
    checkRecords (some r.sequence) rest

/-- The bytes of the journal file. -/
def fileBytes (journal : List JournalRecord) : Nat := (journal.map JournalRecord.frameBytes).sum

/-- `read_journal_file`. -/
def readJournalFile (disk : Disk) : Result (List JournalRecord) := do
  refuse (maxJournalBytes < fileBytes disk.journal) .resourceExhausted
    "file exceeds the supported size"
  checkRecords none disk.journal
  pure disk.journal

/-- `Store::open`: the handle and the records the snapshot does not account for. -/
def openStore (disk : Disk) (faults : List Bool) : Result (Store × List JournalRecord) := do
  let snapshot ← readSnapshotFile disk
  let records ← readJournalFile disk
  let floor := (snapshot.map SnapshotFile.sequence).getD 0
  let effective := records.filter fun r => floor < r.sequence
  let last := (effective.getLast?.map JournalRecord.sequence).getD floor
  pure ({ disk
          lastSequence := last
          snapshotSequence := floor
          journalBytes := fileBytes disk.journal
          faults }, effective)

/-- `Store::snapshot_payload`. -/
def snapshotPayload (s : Store) : Text := (s.disk.snapshot.map SnapshotFile.payload).getD []

end Store

end Brf
