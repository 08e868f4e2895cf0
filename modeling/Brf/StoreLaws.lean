import Brf.CodecLaws
import Brf.Store

/-!
# What the store keeps

What a call of the store does to the directory and to the handle, and what opening the directory
gives back.

* `Disk.tail` are the journal records that the snapshot does not account for: what `open` replays.
* `Store.logged` is the handle after one more record, `Store.withSnapshot` after a snapshot,
  `Store.rotated` after the journal has been emptied.
* `Store.InOrder` relates a handle to its directory: the numbers in the journal rise, and none is
  above `last_sequence`.

Results: `ensures_append`, `ensures_writeSnapshot` and `ensures_rotateJournal`; an append adds one
record to the tail (`tail_logged`), a snapshot empties it (`tail_withSnapshot`), and a rotation after a
snapshot leaves it empty (`tail_rotated`); `openStore` returns the tail and a handle in order.
-/

namespace Brf

open Brf.Lib

/-- The sequence the snapshot accounts for. -/
def Disk.floor (disk : Disk) : DurableSequence := (disk.snapshot.map SnapshotFile.sequence).getD 0

/-- The records the snapshot does not account for. -/
def Disk.tail (disk : Disk) : List JournalRecord :=
  disk.journal.filter fun r => disk.floor < r.sequence

/-- The sequence the directory ends with. -/
def Disk.last (disk : Disk) : DurableSequence :=
  (disk.tail.getLast?.map JournalRecord.sequence).getD disk.floor

/-- The payload of the snapshot, empty when there is none. -/
def Disk.payload (disk : Disk) : Text := (disk.snapshot.map SnapshotFile.payload).getD []

namespace Store

/-- The handle after a record has been appended. -/
def logged (s : Store) (kind : RecordKind) (payload : Text) (faults : List Bool) : Store :=
  let record : JournalRecord := { kind, sequence := s.lastSequence + 1, payload }
  { s with
    disk := { s.disk with journal := s.disk.journal ++ [record] }
    lastSequence := s.lastSequence + 1
    journalBytes := s.journalBytes + record.frameBytes
    faults }

/-- The handle after a snapshot has been written. -/
def withSnapshot (s : Store) (payload : Text) (faults : List Bool) : Store :=
  { s with
    disk := { s.disk with snapshot := some { sequence := s.lastSequence, payload } }
    snapshotSequence := s.lastSequence
    faults }

/-- The handle after the journal has been removed, and perhaps created again. -/
def rotated (s : Store) (journalOpen : Bool) (journalBytes : Nat) (faults : List Bool) : Store :=
  { s with disk := { s.disk with journal := [] }, journalOpen, journalBytes, faults }

/-- What an append needs besides a working disk. -/
structure Writable (s : Store) (payload : Text) : Prop where
  journalOpen : s.journalOpen = true
  fits : payload.length ≤ maxRecordPayload
  room : s.lastSequence.val + 1 < 2 ^ 64

/-! ## Calls -/

theorem ensures_takeFault (s : Store) :
    Op.Ensures takeFault s (fun r t => (∃ fault, r = .ok fault) ∧ ∃ faults, t = { s with faults }) := by
  rcases s with ⟨disk, journalOpen, lastSequence, snapshotSequence, journalBytes, _ | ⟨fault, rest⟩⟩
  · exact ⟨⟨false, rfl⟩, [], rfl⟩
  · exact ⟨⟨fault, rfl⟩, rest, rfl⟩

theorem ensures_sync (s : Store) :
    Op.Ensures sync s (fun _ t => ∃ faults, t = { s with faults }) := by
  unfold sync
  apply Op.ensures_bind
  refine (ensures_takeFault s).mono ?_
  rintro _ t ⟨⟨fault, rfl⟩, faults, rfl⟩
  cases fault <;> exact ⟨faults, rfl⟩

theorem next_eq_ok {c d : Counter} (h : c.next = .ok d) : d = c + 1 ∧ c.val + 1 < 2 ^ 64 := by
  unfold Counter.next at h
  have hc := c.isLt
  split at h
  · exact absurd h (by simp)
  · exact ⟨(Except.ok.inj h).symm, by omega⟩

/-- An append adds one record, or changes nothing but the pending faults. -/
theorem ensures_append (kind : RecordKind) (payload : Text) (s : Store) :
    Op.Ensures (append kind payload) s (fun r t => match r with
      | .ok sequence => s.Writable payload ∧ sequence = s.lastSequence + 1 ∧
          ∃ faults, t = s.logged kind payload faults
      | .error _ => ∃ faults, t = { s with faults }) := by
  unfold append
  apply Op.ensures_get_bind
  refine Op.ensures_refuseIf_bind (fun journalOpen => ?_) fun _ => ⟨s.faults, rfl⟩
  refine Op.ensures_refuseIf_bind (fun fits => ?_) fun _ => ⟨s.faults, rfl⟩
  refine Op.ensures_lift_bind (fun next hnext => ?_) fun _ _ => ⟨s.faults, rfl⟩
  obtain ⟨rfl, room⟩ := next_eq_ok hnext
  apply Op.ensures_bind
  refine (ensures_sync s).mono ?_
  rintro (e | ⟨⟩) t ⟨faults, rfl⟩
  · exact ⟨faults, rfl⟩
  · exact ⟨⟨by simpa using journalOpen, by simpa using fits, room⟩, rfl, faults, rfl⟩

/-- A snapshot is replaced whole, or not at all. -/
theorem ensures_writeSnapshot (payload : Text) (s : Store) :
    Op.Ensures (writeSnapshot payload) s (fun r t => match r with
      | .ok _ => payload.length ≤ maxSnapshotPayload ∧ ∃ faults, t = s.withSnapshot payload faults
      | .error _ => ∃ faults, t = { s with faults }) := by
  unfold writeSnapshot
  refine Op.ensures_refuseIf_bind (fun fits => ?_) fun _ => ⟨s.faults, rfl⟩
  apply Op.ensures_bind
  refine (ensures_sync s).mono ?_
  rintro (e | ⟨⟩) t ⟨faults, rfl⟩
  · exact ⟨faults, rfl⟩
  · exact ⟨by simpa using fits, faults, rfl⟩

/-- A rotation empties the journal, or fails before it touches it. -/
theorem ensures_rotateJournal (s : Store) :
    Op.Ensures rotateJournal s (fun r t => (∃ journalOpen journalBytes faults,
        t = s.rotated journalOpen journalBytes faults ∧
          (r = .ok () → journalOpen = true ∧ journalBytes = 0)) ∨
      (∃ e, r = .error e) ∧ ∃ faults, t = { s with faults }) := by
  have reopen : ∀ faults, Op.Ensures (do
      modify fun s : Store =>
        { s with disk := { s.disk with journal := [] }, journalOpen := false }
      Op.refuseIf (← takeFault) (makeError .io "failed to recreate the journal after rotation")
      modify fun s : Store => { s with journalOpen := true, journalBytes := 0 } : Method Unit)
      { s with faults } (fun r t => ∃ journalOpen journalBytes faults,
        t = s.rotated journalOpen journalBytes faults ∧
          (r = .ok () → journalOpen = true ∧ journalBytes = 0)) := by
    intro faults
    apply Op.ensures_modify_bind
    apply Op.ensures_bind
    refine (ensures_takeFault _).mono ?_
    rintro _ t ⟨⟨fault, rfl⟩, faults', rfl⟩
    refine Op.ensures_refuseIf_bind (fun _ => ?_) fun _ => ?_
    · exact ⟨true, 0, faults', rfl, fun _ => ⟨rfl, rfl⟩⟩
    · exact ⟨false, s.journalBytes, faults', rfl, fun h => absurd h (by simp)⟩
  unfold rotateJournal
  apply Op.ensures_get_bind
  refine Op.ensures_ite (fun _ => ?_) fun _ => ?_
  · apply Op.ensures_bind
    refine (ensures_sync s).mono ?_
    rintro (e | ⟨⟩) t ⟨faults, rfl⟩
    · exact .inr ⟨⟨e, rfl⟩, faults, rfl⟩
    · exact (reopen faults).mono fun _ _ h => .inl h
  · exact (reopen s.faults).mono fun _ _ h => .inl h

/-! ## The directory -/

/-- The numbers in the journal rise up to `last_sequence`, and the snapshot is not ahead of it. -/
structure InOrder (s : Store) : Prop where
  rising : s.disk.journal.Pairwise fun a b => a.sequence < b.sequence
  below : ∀ r ∈ s.disk.journal, r.sequence ≤ s.lastSequence
  floor_le : s.disk.floor ≤ s.lastSequence

theorem lt_add_one {c : Counter} (room : c.val + 1 < 2 ^ 64) : c < c + 1 ∧ (c + 1).val = c.val + 1 := by
  have val : (c + 1).val = c.val + 1 := by
    rw [Fin.val_add]
    exact Nat.mod_eq_of_lt room
  exact ⟨by rw [Fin.lt_def, val]; omega, val⟩

theorem InOrder.faults {s : Store} (h : s.InOrder) (faults : List Bool) :
    ({ s with faults } : Store).InOrder := ⟨h.rising, h.below, h.floor_le⟩

theorem InOrder.logged {s : Store} (h : s.InOrder) {payload : Text} (w : s.Writable payload)
    (kind : RecordKind) (faults : List Bool) : (s.logged kind payload faults).InOrder := by
  obtain ⟨lt, -⟩ := lt_add_one w.room
  refine ⟨?_, ?_, ?_⟩
  · refine List.pairwise_append.mpr ⟨h.rising, List.pairwise_singleton _ _, ?_⟩
    intro a ha b hb
    rw [List.mem_singleton.mp hb]
    exact lt_of_le_of_lt (h.below a ha) lt
  · intro r hr
    rcases List.mem_append.mp hr with hr | hr
    · exact le_of_lt (lt_of_le_of_lt (h.below r hr) lt)
    · rw [List.mem_singleton.mp hr]
      exact le_rfl
  · exact le_of_lt (lt_of_le_of_lt h.floor_le lt)

theorem InOrder.withSnapshot {s : Store} (h : s.InOrder) (payload : Text) (faults : List Bool) :
    (s.withSnapshot payload faults).InOrder := ⟨h.rising, h.below, le_rfl⟩

theorem InOrder.rotated {s : Store} (h : s.InOrder) (journalOpen : Bool) (journalBytes : Nat)
    (faults : List Bool) : (s.rotated journalOpen journalBytes faults).InOrder :=
  ⟨List.Pairwise.nil, fun _ hr => absurd hr List.not_mem_nil, h.floor_le⟩

/-- An append adds its record to the tail. -/
theorem tail_logged {s : Store} (h : s.InOrder) {payload : Text} (w : s.Writable payload)
    (kind : RecordKind) (faults : List Bool) :
    (s.logged kind payload faults).disk.tail =
      s.disk.tail ++ [⟨kind, s.lastSequence + 1, payload⟩] := by
  have lt : s.disk.floor < s.lastSequence + 1 := lt_of_le_of_lt h.floor_le (lt_add_one w.room).1
  change (s.disk.journal ++ [_]).filter _ = _
  rw [List.filter_append]
  congr 1
  exact List.filter_eq_self.mpr fun r hr => by
    rw [List.mem_singleton.mp hr]
    exact decide_eq_true lt

/-- After a snapshot nothing is left to replay. -/
theorem tail_withSnapshot {s : Store} (h : s.InOrder) (payload : Text) (faults : List Bool) :
    (s.withSnapshot payload faults).disk.tail = [] := by
  refine List.filter_eq_nil_iff.mpr fun r hr above => ?_
  have above : s.lastSequence < r.sequence := of_decide_eq_true above
  exact absurd (h.below r hr) (not_le.mpr above)

theorem tail_rotated (s : Store) (journalOpen : Bool) (journalBytes : Nat) (faults : List Bool) :
    (s.rotated journalOpen journalBytes faults).disk.tail = [] := rfl

/-- What the snapshot has taken up is not replayed. -/
theorem tail_taken {s : Store} (h : s.InOrder) {payload : Text}
    (taken : s.disk.snapshot = some ⟨s.lastSequence, payload⟩) : s.disk.tail = [] := by
  have floor : s.disk.floor = s.lastSequence := by
    unfold Disk.floor
    rw [taken]
    rfl
  refine List.filter_eq_nil_iff.mpr fun r mem above => ?_
  have above : s.disk.floor < r.sequence := of_decide_eq_true above
  rw [floor] at above
  exact absurd (h.below r mem) (not_le.mpr above)

/-- The directory tells the last sequence. -/
def Level (s : Store) : Prop := s.lastSequence = s.disk.last

/-! ## Opening -/

theorem checkRecords_ok : ∀ {last : Option DurableSequence} {records : List JournalRecord},
    checkRecords last records = .ok () →
      records.Pairwise (fun a b => a.sequence < b.sequence) ∧
        ∀ r ∈ records, ∀ l ∈ last, l < r.sequence
  | _, [], _ => ⟨List.Pairwise.nil, fun _ hr => absurd hr List.not_mem_nil⟩
  | last, r :: rest, h => by
    unfold checkRecords at h
    obtain ⟨⟨⟩, -, h⟩ := Result.bind_eq_ok.mp h
    obtain ⟨⟨⟩, above, h⟩ := Result.bind_eq_ok.mp h
    obtain ⟨rising, later⟩ := checkRecords_ok h
    have head : ∀ l ∈ last, l < r.sequence := by
      intro l hl
      rw [Option.mem_def] at hl
      subst hl
      by_contra hlt
      simp [refuse, not_lt.mp hlt] at above
    refine ⟨List.pairwise_cons.mpr ⟨fun b hb => later b hb _ rfl, rising⟩, ?_⟩
    intro b hb l hl
    rcases List.mem_cons.mp hb with rfl | hb
    · exact head l hl
    · exact lt_trans (head l hl) (later b hb _ rfl)

theorem getLast_le {records : List JournalRecord} {floor : DurableSequence}
    (rising : records.Pairwise fun a b => a.sequence < b.sequence) :
    ∀ r ∈ records, r.sequence ≤ (records.getLast?.map JournalRecord.sequence).getD floor := by
  intro r hr
  have ne : records ≠ [] := List.ne_nil_of_mem hr
  rw [List.getLast?_eq_some_getLast ne, Option.map_some, Option.getD_some]
  rw [← List.dropLast_append_getLast ne] at hr rising
  rcases List.mem_append.mp hr with hr | hr
  · exact le_of_lt ((List.pairwise_append.mp rising).2.2 r hr _ List.mem_cons_self)
  · rw [List.mem_singleton.mp hr]

theorem floor_le_last (disk : Disk) :
    disk.floor ≤ (disk.tail.getLast?.map JournalRecord.sequence).getD disk.floor := by
  cases hlast : disk.tail.getLast? with
  | none => exact le_rfl
  | some r =>
    have mem := List.mem_filter.mp (List.mem_of_getLast? hlast)
    exact le_of_lt (of_decide_eq_true mem.2)

/-- Opening returns the tail of the directory, and a handle on it that is in order. -/
theorem openStore_ok {disk : Disk} {faults : List Bool} {s : Store} {records : List JournalRecord}
    (h : openStore disk faults = .ok (s, records)) :
    records = disk.tail ∧ s.disk = disk ∧ s.journalOpen = true ∧ s.InOrder ∧ s.Level := by
  unfold openStore at h
  obtain ⟨snapshot, hsnapshot, h⟩ := Result.bind_eq_ok.mp h
  obtain ⟨journal, hjournal, h⟩ := Result.bind_eq_ok.mp h
  have same : snapshot = disk.snapshot := by
    unfold readSnapshotFile at hsnapshot
    cases hs : disk.snapshot with
    | none =>
      rw [hs] at hsnapshot
      exact (Except.ok.inj hsnapshot).symm
    | some file =>
      rw [hs] at hsnapshot
      obtain ⟨⟨⟩, -, hsnapshot⟩ := Result.bind_eq_ok.mp hsnapshot
      exact (Except.ok.inj hsnapshot).symm
  subst same
  unfold readJournalFile at hjournal
  obtain ⟨⟨⟩, -, hjournal⟩ := Result.bind_eq_ok.mp hjournal
  obtain ⟨⟨⟩, checked, hjournal⟩ := Result.bind_eq_ok.mp hjournal
  obtain rfl := Except.ok.inj hjournal
  obtain ⟨rising, -⟩ := checkRecords_ok checked
  obtain ⟨rfl, rfl⟩ := Prod.mk.inj (Except.ok.inj h)
  refine ⟨rfl, rfl, rfl, ⟨rising, ?_, ?_⟩, rfl⟩
  · intro r hr
    by_cases hfloor : disk.floor < r.sequence
    · exact getLast_le (rising.filter _) r (List.mem_filter.mpr ⟨hr, decide_eq_true hfloor⟩)
    · refine le_trans (not_lt.mp hfloor) ?_
      exact floor_le_last disk
  · exact floor_le_last disk
end Store

end Brf
