import Brf.RecoveryLaws
import Brf.System
import Brf.TornTail

/-!
# Epochs and sequences over the life of a directory

The store directory under a coordinator that is opened, appends, compacts and crashes, any number of
times.

* A crash may come inside any step. What it leaves of an append is the first bytes of the frame
  (`Write.failed`); inside a compaction it falls before the snapshot is renamed, before the journal is
  removed, or before it is created again.
* `start` is `ReservationCoordinator::open`: the store opens and repairs its file, the coordinator
  recovers, and the boot record of the next epoch is appended. What `open` appends after that, and
  what later operations append, are `append` steps of any records.
* A compaction writes the coordinator's state with its epoch (`snapshotState`); the rest of the
  snapshot is arbitrary here.
* `History` keeps what the callers have been told: the sequences acknowledged so far, and the epochs
  whose boot record has reached the disk.

Results: `epochs_and_sequences_rise`.
-/

namespace Brf

open Brf.Lib

/-- The coordinator of a directory: not running, or running in an epoch. -/
inductive Fabric where
  | down (dir : Directory)
  | up (store : FileStore) (epoch : FabricEpoch)

/-- A fabric, and what its callers know. -/
structure History where
  fabric : Fabric := .down {}
  acknowledged : List DurableSequence := []
  epochs : List FabricEpoch := []

namespace History

/-- What happens to a directory. -/
inductive Step where
  | start (config : Config) (boot : Identity128) (now : Timestamp) (write : Write)
  | append (record : DurableRecord) (write : Write)
  | compact (state : SnapshotState) (fails unsynced lost : Bool)
  | crash

/-- The records of an open store as the coordinator replays them. -/
def recovered (store : FileStore) : Disk :=
  { snapshot := store.directory.snapshot
    journal := store.records.map FiledRecord.toJournalRecord }

/-- The boot record of an epoch. -/
def bootRecord (epoch : FabricEpoch) (boot : Identity128) (now : Timestamp) : DurableRecord :=
  .fabricBoot { epoch, coordinatorBoot := boot, at' := now }

/-- An append to an open store; one that is cut short is the end of the process. -/
def appendStep (digest : Text → Word 32) (h : History) (store : FileStore) (epoch : FabricEpoch)
    (record : DurableRecord) (write : Write) : History :=
  match (FileStore.append digest record.kind (encodeRecord record) write).exec store, write with
  | (.ok sequence, store'), _ =>
    { h with fabric := .up store' epoch, acknowledged := h.acknowledged ++ [sequence] }
  | (.error _, store'), .synced => { h with fabric := .up store' epoch }
  | (.error _, store'), .failed _ => { h with fabric := .down store'.directory }

/-- The epoch of a boot record becomes part of the history when the whole record is in the file. -/
def sawEpoch (h : History) (epoch : FabricEpoch) (written : Bool) : History :=
  if written then { h with epochs := h.epochs ++ [epoch] } else h

/-- The last append of `open`: it succeeds, or `open` fails. -/
def bootStep (digest : Text → Word 32) (h : History) (store : FileStore) (epoch : FabricEpoch)
    (record : DurableRecord) (write : Write) : History :=
  match (FileStore.append digest record.kind (encodeRecord record) write).exec store with
  | (.ok sequence, store') => sawEpoch
      { h with fabric := .up store' epoch, acknowledged := h.acknowledged ++ [sequence] } epoch true
  | (.error _, store') => sawEpoch { h with fabric := .down store'.directory } epoch <|
      store'.journal.length = store.journal.length + journalHeaderBytes + (encodeRecord record).length

/-- `ReservationCoordinator::open` up to its boot record. -/
def startStep (digest : Text → Word 32) (h : History) (dir : Directory) (config : Config)
    (boot : Identity128) (now : Timestamp) (write : Write) : History :=
  match Coordinator.checkConfig config, FileStore.openStore digest dir with
  | .ok (), .ok store =>
    match Coordinator.recover config (recovered store) [] with
    | .error _ => { h with fabric := .down store.directory }
    | .ok c =>
      if c.incarnation.epoch.val = 18446744073709551615 then
        { h with fabric := .down store.directory }
      else
        let epoch := c.incarnation.epoch + 1
        bootStep digest h store epoch (bootRecord epoch boot now) write
  | _, _ => h

/-- `compact_locked`. -/
def compactStep (h : History) (store : FileStore) (epoch : FabricEpoch) (state : SnapshotState)
    (fails unsynced lost : Bool) : History :=
  let compacted := (do
    discard <| FileStore.writeSnapshot (encode { state with epoch }) fails
    FileStore.rotateJournal unsynced lost : FileStore.Method Unit).exec store
  { h with fabric := .up compacted.2 epoch }

/-- One step. -/
def step (digest : Text → Word 32) (h : History) (s : Step) : History :=
  match h.fabric, s with
  | .down dir, .start config boot now write => startStep digest h dir config boot now write
  | .up store epoch, .append record write => appendStep digest h store epoch record write
  | .up store epoch, .compact state fails unsynced lost =>
    compactStep h store epoch state fails unsynced lost
  | .up store _, .crash => { h with fabric := .down store.directory }
  | _, _ => h

/-- The snapshot that `compact_locked` writes carries the epoch of the coordinator. -/
theorem snapshotState_epoch (c : Coordinator) :
    c.snapshotState = { c.snapshotState with epoch := c.incarnation.epoch } := rfl

/-! ## What a directory carries -/

/-- Recovery from the directory, whose file says `all`, reaches at least this epoch. -/
def Carries (dir : Directory) (all : List FiledRecord) (epoch : FabricEpoch) : Prop :=
  (∃ file ∈ dir.snapshot, ∃ state : SnapshotState, file.payload = encode state ∧
      (encode state).length ≤ maxSnapshotPayload ∧ epoch ≤ state.epoch) ∨
    ∃ r ∈ all, FileStore.floorOf dir < r.sequence ∧ ∃ m : EpochMutation,
      r.kind = .fabricBoot ∧ r.payload = encodeRecord (.fabricBoot m) ∧
        r.payload.length ≤ maxRecordPayload ∧ epoch ≤ m.epoch

/-- What the callers know about a directory that nobody has open. -/
def Kept (digest : Text → Word 32) (acknowledged : List DurableSequence)
    (epochs : List FabricEpoch) (dir : Directory) : Prop :=
  ∃ all torn, FileSpells digest (dir.journal.getD []) all torn ∧
    (∀ a ∈ acknowledged, a ≤ FileStore.floorOf dir ∨ ∃ r ∈ all, a ≤ r.sequence) ∧
    ∀ e ∈ epochs, Carries dir all e

/-- What the callers know about an open store. -/
structure Running (digest : Text → Word 32) (acks : List DurableSequence)
    (known : List FabricEpoch) (store : FileStore) (epoch : FabricEpoch) : Prop where
  holds : ∃ all, FileStore.Holds digest store all ∧ Carries store.directory all epoch ∧
    (store.lastSequence ≤ FileStore.floorOf store.directory ∨
      ∃ r ∈ all, store.lastSequence ≤ r.sequence)
  acknowledged : ∀ a ∈ acks, a ≤ store.lastSequence
  epochs : ∀ e ∈ known, e ≤ epoch
  last : known.getLast? = some epoch

/-- The invariant of a history. -/
structure Sound (digest : Text → Word 32) (h : History) : Prop where
  sequences : h.acknowledged.Pairwise (· < ·)
  epochs : h.epochs.Pairwise (· < ·)
  fabric : match h.fabric with
    | .down dir => Kept digest h.acknowledged h.epochs dir
    | .up store epoch => Running digest h.acknowledged h.epochs store epoch

variable {digest : Text → Word 32}

theorem Carries.mono {dir : Directory} {all : List FiledRecord} {e epoch : FabricEpoch}
    (h : Carries dir all epoch) (le : e ≤ epoch) (more : List FiledRecord) :
    Carries dir (all ++ more) e := by
  rcases h with ⟨file, hfile, state, payload, len, reach⟩ | ⟨r, hr, above, m, kind, payload, len, reach⟩
  · exact .inl ⟨file, hfile, state, payload, len, le_trans le reach⟩
  · exact .inr ⟨r, List.mem_append_left _ hr, above, m, kind, payload, len, le_trans le reach⟩

/-- A store whose file ends in the first bytes of one more record keeps what its callers know, and
that record if it is whole. -/
theorem kept_beginning {h : History} {store : FileStore} {all : List FiledRecord}
    (holds : FileStore.Holds digest store all)
    (reached : ∀ a ∈ h.acknowledged, a ≤ FileStore.floorOf store.directory ∨
      ∃ r ∈ all, a ≤ r.sequence)
    (carries : ∀ e ∈ h.epochs, Carries store.directory all e) {kind : RecordKind} {payload : Text}
    (w : store.Writable payload) (n : Nat) :
    ∃ more torn, FileSpells digest (store.journal ++
        (frameOf digest (store.nextRecord kind payload)).take n) (all ++ more) torn ∧
      (more = [store.nextRecord kind payload] ∧
          (frameOf digest (store.nextRecord kind payload)).length ≤ n ∨
        more = [] ∧ n < (frameOf digest (store.nextRecord kind payload)).length) ∧
      (∀ a ∈ h.acknowledged, a ≤ FileStore.floorOf store.directory ∨
        ∃ r ∈ all ++ more, a ≤ r.sequence) ∧
      ∀ e ∈ h.epochs, Carries store.directory (all ++ more) e := by
  obtain ⟨more, torn, spelled, which⟩ := (readFrame_framing digest).spells_beginning holds.chain
    (holds.nextFits w kind) n
  refine ⟨more, torn, ?_, which, ?_, fun e he => (carries e he).mono le_rfl more⟩
  · rw [holds.bytes]
    exact spelled
  · intro a ha
    rcases reached a ha with floor | ⟨r, hr, le⟩
    · exact .inl floor
    · exact .inr ⟨r, List.mem_append_left _ hr, le⟩

/-- The acknowledged sequences are recoverable from the file of an open store. -/
theorem Running.reached {h : History} {store : FileStore} {epoch : FabricEpoch}
    {all : List FiledRecord} (running : Running digest h.acknowledged h.epochs store epoch)
    (reached : store.lastSequence ≤ FileStore.floorOf store.directory ∨
      ∃ r ∈ all, store.lastSequence ≤ r.sequence) :
    ∀ a ∈ h.acknowledged, a ≤ FileStore.floorOf store.directory ∨ ∃ r ∈ all, a ≤ r.sequence := by
  intro a ha
  rcases reached with floor | ⟨r, hr, le⟩
  · exact .inl (le_trans (running.acknowledged a ha) floor)
  · exact .inr ⟨r, hr, le_trans (running.acknowledged a ha) le⟩

/-- A store that is closed keeps what its callers know. -/
theorem Running.kept {h : History} {store : FileStore} {epoch : FabricEpoch}
    (running : Running digest h.acknowledged h.epochs store epoch) : Kept digest h.acknowledged h.epochs store.directory := by
  obtain ⟨all, holds, carries, reached⟩ := running.holds
  have spelled : FileSpells digest (store.directory.journal.getD []) all none := by
    have bytes : store.directory.journal.getD [] = frames (frameOf digest) all := holds.bytes
    rw [bytes]
    exact (readFrame_framing digest).spells_frames holds.chain
  refine ⟨all, none, spelled, running.reached reached, fun e he => ?_⟩
  have h := carries.mono (running.epochs e he) []
  rwa [List.append_nil] at h

/-! ## Steps -/

theorem pairwise_append_one {α : Type} [Preorder α] {xs : List α} {x : α}
    (h : xs.Pairwise (· < ·)) (above : ∀ y ∈ xs, y < x) : (xs ++ [x]).Pairwise (· < ·) :=
  List.pairwise_append.mpr ⟨h, List.pairwise_singleton _ _,
    fun y hy z hz => by rw [List.mem_singleton.mp hz]; exact above y hy⟩

/-- An append is acknowledged under a new sequence, or leaves a file that can be repaired. -/
theorem sound_appendStep {h : History} {store : FileStore} {epoch : FabricEpoch}
    (sequences : h.acknowledged.Pairwise (· < ·)) (epochs : h.epochs.Pairwise (· < ·))
    (running : Running digest h.acknowledged h.epochs store epoch) (record : DurableRecord) (write : Write) :
    Sound digest (appendStep digest h store epoch record write) := by
  obtain ⟨all, holds, carries, reached⟩ := running.holds
  have spec := FileStore.ensures_append digest record.kind (encodeRecord record) write store
  unfold Op.Ensures at spec
  unfold appendStep
  rcases result : (FileStore.append digest record.kind (encodeRecord record) write).exec store with
    ⟨_ | sequence, store'⟩
  · rw [result] at spec
    cases write with
    | synced =>
      rcases spec with rfl | ⟨-, n, failed, -⟩
      · exact ⟨sequences, epochs, running⟩
      · exact absurd failed (by simp)
    | failed n =>
      rcases spec with rfl | ⟨w, m, -, rfl⟩
      · exact ⟨sequences, epochs, running.kept⟩
      · have carries' : ∀ e ∈ h.epochs, Carries store.directory all e := fun e he => by
          have c := carries.mono (running.epochs e he) []
          rwa [List.append_nil] at c
        obtain ⟨more, torn, spelled, -, acks, eps⟩ :=
          kept_beginning holds (running.reached reached) carries' w m
        exact ⟨sequences, epochs, _, torn, spelled, acks, eps⟩
  · rw [result] at spec
    obtain ⟨w, -, rfl, rfl⟩ := spec
    obtain ⟨lt, -⟩ := Store.lt_add_one w.room
    refine ⟨?_, epochs, ?_, ?_, running.epochs, running.last⟩
    · exact pairwise_append_one sequences fun a ha => lt_of_le_of_lt (running.acknowledged a ha) lt
    · refine ⟨_, holds.logged w record.kind, carries.mono le_rfl _,
        .inr ⟨store.nextRecord record.kind (encodeRecord record), ?_, le_rfl⟩⟩
      exact List.mem_append_right _ List.mem_cons_self
    · intro a ha
      rcases List.mem_append.mp ha with ha | ha
      · exact le_of_lt (lt_of_le_of_lt (running.acknowledged a ha) lt)
      · rw [List.mem_singleton.mp ha]
        exact le_rfl

/-- The boot record of a new epoch carries it. -/
theorem carries_boot {store : FileStore} {all : List FiledRecord} {epoch : FabricEpoch}
    {boot : Identity128} {now : Timestamp} (holds : FileStore.Holds digest store all)
    (w : store.Writable (encodeRecord (bootRecord epoch boot now))) :
    Carries store.directory
      (all ++ [store.nextRecord .fabricBoot (encodeRecord (bootRecord epoch boot now))]) epoch := by
  refine .inr ⟨_, List.mem_append_right _ List.mem_cons_self, ?_, _, rfl, rfl, w.fits, le_rfl⟩
  rw [← holds.floor]
  exact lt_of_le_of_lt holds.floor_le (Store.lt_add_one w.room).1

/-- The boot record starts an epoch above all others, or leaves a file that can be repaired. -/
theorem sound_bootStep {h : History} {store : FileStore} {all : List FiledRecord}
    {epoch : FabricEpoch} (sequences : h.acknowledged.Pairwise (· < ·))
    (epochs : h.epochs.Pairwise (· < ·)) (holds : FileStore.Holds digest store all)
    (acks : ∀ a ∈ h.acknowledged, a ≤ store.lastSequence)
    (reached : ∀ a ∈ h.acknowledged, a ≤ FileStore.floorOf store.directory ∨
      ∃ r ∈ all, a ≤ r.sequence)
    (carries : ∀ e ∈ h.epochs, Carries store.directory all e)
    (above : ∀ e ∈ h.epochs, e < epoch) (boot : Identity128) (now : Timestamp) (write : Write) :
    Sound digest (bootStep digest h store epoch (bootRecord epoch boot now) write) := by
  have spec := FileStore.ensures_append digest .fabricBoot
    (encodeRecord (bootRecord epoch boot now)) write store
  unfold Op.Ensures at spec
  unfold bootStep
  change Sound digest (match (FileStore.append digest .fabricBoot
    (encodeRecord (bootRecord epoch boot now)) write).exec store with
    | (.ok _, _) => _
    | (.error _, _) => _)
  rcases result : (FileStore.append digest .fabricBoot
    (encodeRecord (bootRecord epoch boot now)) write).exec store with ⟨_ | sequence, store'⟩
  · rw [result] at spec
    dsimp only
    rcases spec with rfl | ⟨w, n, -, rfl⟩
    · have unwritten : decide (store'.journal.length = store'.journal.length + journalHeaderBytes +
          (encodeRecord (bootRecord epoch boot now)).length) = false := by
        refine decide_eq_false fun same => ?_
        have pos : 0 < journalHeaderBytes := by decide
        omega
      rw [unwritten]
      refine ⟨sequences, epochs, all, none, ?_, reached, carries⟩
      have bytes : store'.directory.journal.getD [] = frames (frameOf digest) all := holds.bytes
      rw [bytes]
      exact (readFrame_framing digest).spells_frames holds.chain
    · obtain ⟨more, torn, spelled, which, acks', eps⟩ :=
        kept_beginning holds reached carries w n
      have total : (frameOf digest (store.nextRecord .fabricBoot
          (encodeRecord (bootRecord epoch boot now)))).length =
          journalHeaderBytes + (encodeRecord (bootRecord epoch boot now)).length :=
        journalFrame_length _
      have len : (store.written ((frameOf digest (store.nextRecord .fabricBoot
          (encodeRecord (bootRecord epoch boot now)))).take n)).journal.length =
          store.journal.length + min n (journalHeaderBytes +
            (encodeRecord (bootRecord epoch boot now)).length) := by
        rw [FileStore.journal_written, List.length_append, List.length_take, total]
      rw [len]
      rcases which with ⟨rfl, whole⟩ | ⟨rfl, short⟩
      · rw [total] at whole
        have written : decide (store.journal.length + min n (journalHeaderBytes +
            (encodeRecord (bootRecord epoch boot now)).length) = store.journal.length +
            journalHeaderBytes + (encodeRecord (bootRecord epoch boot now)).length) = true := by
          refine decide_eq_true ?_
          rw [Nat.min_eq_right whole]
          omega
        rw [written]
        refine ⟨sequences, pairwise_append_one epochs above, _, torn, spelled, acks', ?_⟩
        intro e he
        rcases List.mem_append.mp he with he | he
        · exact eps e he
        · rw [List.mem_singleton.mp he]
          have boot := carries_boot holds w
          exact boot
      · rw [total] at short
        have unwritten : decide (store.journal.length + min n (journalHeaderBytes +
            (encodeRecord (bootRecord epoch boot now)).length) = store.journal.length +
            journalHeaderBytes + (encodeRecord (bootRecord epoch boot now)).length) = false := by
          refine decide_eq_false ?_
          rw [Nat.min_eq_left (Nat.le_of_lt short)]
          omega
        rw [unwritten]
        exact ⟨sequences, epochs, _, torn, spelled, acks', eps⟩
  · rw [result] at spec
    obtain ⟨w, -, rfl, rfl⟩ := spec
    obtain ⟨lt, -⟩ := Store.lt_add_one w.room
    refine ⟨?_, pairwise_append_one epochs above, ?_, ?_, ?_, ?_⟩
    · exact pairwise_append_one sequences fun a ha => lt_of_le_of_lt (acks a ha) lt
    · refine ⟨_, holds.logged w .fabricBoot, carries_boot holds w,
        .inr ⟨store.nextRecord .fabricBoot (encodeRecord (bootRecord epoch boot now)), ?_, le_rfl⟩⟩
      exact List.mem_append_right _ List.mem_cons_self
    · intro a ha
      rcases List.mem_append.mp ha with ha | ha
      · exact le_of_lt (lt_of_le_of_lt (acks a ha) lt)
      · rw [List.mem_singleton.mp ha]
        exact le_rfl
    · intro e he
      rcases List.mem_append.mp he with he | he
      · exact le_of_lt (above e he)
      · rw [List.mem_singleton.mp he]
    · exact List.getLast?_concat

/-- What recovery reaches from a directory. -/
theorem recover_reaches {dir : Directory} {store : FileStore} {all : List FiledRecord}
    {config : Config} {c : Coordinator} {e : FabricEpoch}
    (snapshot : store.directory.snapshot = dir.snapshot)
    (records : store.records = all.filter fun r => FileStore.floorOf dir < r.sequence)
    (recovers : Coordinator.recover config (recovered store) [] = .ok c)
    (carries : Carries dir all e) : e ≤ c.incarnation.epoch := by
  obtain ⟨fromSnapshot, fromTail⟩ := Coordinator.recover_epoch recovers
  rcases carries with ⟨file, hfile, state, payload, len, reach⟩ | ⟨r, hr, above, m, kind, payload, len, reach⟩
  · refine le_trans reach (fromSnapshot state ?_ ?_)
    · change (store.directory.snapshot.map SnapshotFile.payload).getD [] = _
      rw [snapshot, Option.mem_def.mp hfile]
      exact payload
    · unfold maxSnapshotPayload at len
      omega
  · refine le_trans reach (fromTail r.toJournalRecord ?_ m kind payload ?_)
    · refine List.mem_filter.mpr ⟨List.mem_map_of_mem ?_, decide_eq_true ?_⟩
      · rw [records]
        exact List.mem_filter.mpr ⟨hr, decide_eq_true above⟩
      · change (store.directory.snapshot.map SnapshotFile.sequence).getD 0 < r.sequence
        rw [snapshot]
        exact above
    · unfold maxRecordPayload at len
      omega

/-- `open` starts an epoch above all others, or leaves a directory that can be opened again. -/
theorem sound_startStep {h : History} {dir : Directory} (down : h.fabric = .down dir)
    (sequences : h.acknowledged.Pairwise (· < ·)) (epochs : h.epochs.Pairwise (· < ·))
    (kept : Kept digest h.acknowledged h.epochs dir) (config : Config) (boot : Identity128) (now : Timestamp)
    (write : Write) : Sound digest (startStep digest h dir config boot now write) := by
  have same : Sound digest h := ⟨sequences, epochs, by rw [down]; exact kept⟩
  unfold startStep
  split
  · rename_i store checked opens
    obtain ⟨all, torn, spelled, acks, carries⟩ := kept
    obtain ⟨all', torn', spelled', holds, records, -, snapshot, last⟩ := FileStore.openStore_ok opens
    obtain ⟨rfl, -⟩ := Spells.unique spelled' spelled
    have floor : FileStore.floorOf store.directory = FileStore.floorOf dir := by
      unfold FileStore.floorOf
      rw [snapshot]
    have moved : ∀ e ∈ h.epochs, Carries store.directory all' e := by
      intro e he
      have c := carries e he
      unfold Carries at c ⊢
      rwa [snapshot, floor]
    have reached : ∀ a ∈ h.acknowledged, a ≤ FileStore.floorOf store.directory ∨
        ∃ r ∈ all', a ≤ r.sequence := by
      rw [floor]
      exact acks
    have below : ∀ a ∈ h.acknowledged, a ≤ store.lastSequence := by
      intro a ha
      rcases reached a ha with le | ⟨r, hr, le⟩
      · refine le_trans le ?_
        rw [← holds.floor]
        exact holds.floor_le
      · exact le_trans le (holds.below r hr)
    have closed : Sound digest { h with fabric := .down store.directory } := by
      refine ⟨sequences, epochs, all', none, ?_, reached, moved⟩
      have bytes : store.directory.journal.getD [] = frames (frameOf digest) all' := holds.bytes
      rw [bytes]
      exact (readFrame_framing digest).spells_frames holds.chain
    split
    · exact closed
    · rename_i c recovers
      split
      · exact closed
      · rename_i room
        refine sound_bootStep sequences epochs holds below reached moved ?_ boot now write
        intro e he
        refine lt_of_le_of_lt (recover_reaches snapshot records recovers (carries e he)) ?_
        refine (Store.lt_add_one ?_).1
        have small := c.incarnation.epoch.isLt
        omega
  · exact same

/-- A compaction keeps the sequence and the epoch. -/
theorem sound_compactStep {h : History} {store : FileStore} {epoch : FabricEpoch}
    (sequences : h.acknowledged.Pairwise (· < ·)) (epochs : h.epochs.Pairwise (· < ·))
    (running : Running digest h.acknowledged h.epochs store epoch) (state : SnapshotState) (fails unsynced lost : Bool) :
    Sound digest (compactStep h store epoch state fails unsynced lost) := by
  obtain ⟨all, holds, carries, reached⟩ := running.holds
  refine ⟨sequences, epochs, ?_⟩
  unfold compactStep
  have done : Op.Ensures (do
      discard <| FileStore.writeSnapshot (encode { state with epoch }) fails
      FileStore.rotateJournal unsynced lost : FileStore.Method Unit) store
      (fun _ store' => Running digest h.acknowledged h.epochs store' epoch) := by
    apply Op.ensures_bind
    apply Op.ensures_discard
    refine (FileStore.ensures_writeSnapshot _ fails store).mono ?_
    rintro (e | sequence) store₁ spec
    · obtain rfl := spec
      exact running
    · obtain ⟨len, rfl⟩ := spec
      have snapped := holds.withSnapshot (encode { state with epoch })
      have kept : ∀ all', Carries
          (store.withSnapshot (encode { state with epoch })).directory all' epoch := fun _ =>
        .inl ⟨_, rfl, { state with epoch }, rfl, len, le_rfl⟩
      refine (FileStore.ensures_rotateJournal unsynced lost _).mono ?_
      rintro _ _ (⟨-, rfl⟩ | ⟨-, rfl⟩ | ⟨-, rfl⟩)
      · exact ⟨⟨all, snapped, kept all, .inl le_rfl⟩, running.acknowledged, running.epochs,
          running.last⟩
      · exact ⟨⟨[], snapped.removed, kept [], .inl le_rfl⟩, running.acknowledged, running.epochs,
          running.last⟩
      · exact ⟨⟨[], snapped.rotated, kept [], .inl le_rfl⟩, running.acknowledged, running.epochs,
          running.last⟩
  exact done

/-- Every step keeps the invariant. -/
theorem sound_step (h : History) (s : Step) (sound : Sound digest h) :
    Sound digest (step digest h s) := by
  obtain ⟨sequences, epochs, fabric⟩ := sound
  have same : Sound digest h := ⟨sequences, epochs, fabric⟩
  unfold step
  split
  · rename_i dir config boot now write down
    rw [down] at fabric
    exact sound_startStep down sequences epochs fabric config boot now write
  · rename_i store epoch record write up
    rw [up] at fabric
    exact sound_appendStep sequences epochs fabric record write
  · rename_i store epoch state fails unsynced lost up
    rw [up] at fabric
    exact sound_compactStep sequences epochs fabric state fails unsynced lost
  · rename_i store epoch up
    rw [up] at fabric
    exact ⟨sequences, epochs, fabric.kept⟩
  · exact same

end History

end Brf
