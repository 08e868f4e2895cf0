import Brf.JournalLaws
import Brf.Lib.Run

/-!
# Crashes and failures on the journal file

What is read back from a journal that was cut at any byte, and from one that some appends failed on.

* A *cut* is what a crash leaves: the first bytes of the file. `wholeRecords` are the records inside
  it, `OnBoundary` says that it ends behind one.
* A *failed append* leaves the first bytes of its frame and a handle that knows nothing of them, so
  the next append builds on a file that is longer than `journal_bytes_` says. `Survives` is what a
  caller expects all the same: the file opens, and every acknowledged record is in it.

Results: `torn_tail_law`, for files that the reader supports (`journal_too_large` is one that it does
not); `survives_of_clean`: appends survive as long as none of them is made behind the bytes of a
failed one, and `failed_append_breaks_journal`, where one is.
-/

namespace Brf

open Brf.Lib

variable {digest : Text → Word 32}

namespace FileStore

/-- What the caller hands to an append. -/
def content (r : FiledRecord) : RecordKind × Text := (r.kind, r.payload)

/-- A store on an empty directory. -/
def fresh : FileStore := { directory := { journal := some [] } }

theorem openStore_empty (digest : Text → Word 32) : openStore digest {} = .ok fresh :=
  @openStore_frames digest {} [] rfl rfl trivial (Nat.zero_le _)

theorem holds_fresh : Holds digest fresh [] :=
  ⟨rfl, trivial, fun _ => rfl, rfl, le_rfl, fun _ hr => absurd hr List.not_mem_nil⟩

/-! ## Appending a list of records -/

/-- Appends that all reach the disk. -/
def appendAll (digest : Text → Word 32) (items : List (RecordKind × Text)) : Method Unit :=
  Op.each (fun item => discard <| append digest item.1 item.2 .synced) items

/-- One acknowledged append. -/
theorem append_acknowledged {kind : RecordKind} {payload : Text} {write : Write} {s t : FileStore}
    {sequence : DurableSequence}
    (h : (append digest kind payload write).exec s = (.ok sequence, t)) :
    s.Writable payload ∧ write = .synced ∧ sequence = s.lastSequence + 1 ∧
      t = s.logged digest kind payload := by
  have spec := ensures_append digest kind payload write s
  unfold Op.Ensures at spec
  rw [h] at spec
  exact spec

/-- A list of acknowledged appends adds its records to the file, numbered in a row. -/
theorem appendAll_ok : ∀ {items : List (RecordKind × Text)} {s t : FileStore}
    {all : List FiledRecord}, Holds digest s all → (appendAll digest items).exec s = (.ok (), t) →
      ∃ new, Holds digest t (all ++ new) ∧ t.records = s.records ++ new ∧
        new.map content = items ∧
        (new.map fun r => r.sequence.val) = List.range' (s.lastSequence.val + 1) items.length ∧
        t.directory.snapshot = s.directory.snapshot
  | [], s, t, all, holds, h => by
    obtain ⟨-, rfl⟩ := Prod.mk.inj h
    exact ⟨[], by rwa [List.append_nil], (List.append_nil _).symm, rfl, rfl, rfl⟩
  | (kind, payload) :: items, s, t, all, holds, h => by
    obtain ⟨_, s', first, rest⟩ := Op.exec_bind_ok h
    obtain ⟨sequence, _, acked, done⟩ := Op.exec_bind_ok first
    obtain ⟨-, rfl⟩ := Prod.mk.inj done
    obtain ⟨w, -, -, rfl⟩ := append_acknowledged acked
    obtain ⟨new, holds', records, contents, numbers, snapshot⟩ :=
      appendAll_ok (holds.logged w kind) rest
    obtain ⟨-, val⟩ := Store.lt_add_one w.room
    refine ⟨s.nextRecord kind payload :: new, ?_, ?_, ?_, ?_, snapshot⟩
    · rwa [List.append_assoc] at holds'
    · rw [records]
      exact List.append_assoc _ _ _
    · rw [List.map_cons, contents]
      rfl
    · rw [List.map_cons, numbers]
      change (s.lastSequence + 1).val :: List.range' ((s.lastSequence + 1).val + 1) items.length = _
      rw [val]
      rfl

/-! ## Cuts -/

/-- The records that end within the first `n` bytes. -/
def wholeRecords (records : List FiledRecord) (n : Nat) : List FiledRecord :=
  records.filter fun r => r.fileEnd ≤ n

/-- The first `n` bytes end behind a record, or are none. -/
def OnBoundary (records : List FiledRecord) (n : Nat) : Prop :=
  n = 0 ∨ ∃ r ∈ records, r.fileEnd = n

/-- Where a cut falls, told by the places of the records. -/
theorem cut_eq {ws us : List FiledRecord} {tail : Text}
    (chain : Chain (frameOf digest) Fits 0 none (ws ++ us))
    (short : ∀ r ∈ us.head?, tail.length < (frameOf digest r).length) :
    let n := (frames (frameOf digest) ws ++ tail).length
    (us = [] → tail = []) → wholeRecords (ws ++ us) n = ws ∧
      (OnBoundary (ws ++ us) n ↔ tail = []) := by
  intro n ends
  obtain ⟨before, behind⟩ := (chain_append 0 none ws us).mp chain
  have total : n = (frames (frameOf digest) ws).length + tail.length := List.length_append
  have inside : ∀ r ∈ ws, r.fileEnd + tail.length ≤ n := by
    intro r hr
    have h := (chain_sizes before r hr).2
    omega
  have outside : ∀ r ∈ us, n < r.fileEnd := by
    cases us with
    | nil => exact fun r hr => absurd hr List.not_mem_nil
    | cons u us =>
      obtain ⟨fits, later⟩ := behind
      have first := short u rfl
      have place := fits.place
      rw [journalFrame_length] at first
      intro r hr
      rcases List.mem_cons.mp hr with rfl | hr
      · rw [FiledRecord.fileEnd]
        omega
      · have far := (chain_sizes later r hr).1
        rw [journalFrame_length] at far
        rw [FiledRecord.fileEnd]
        omega
  constructor
  · unfold wholeRecords
    rw [List.filter_append, List.filter_eq_self.mpr, List.filter_eq_nil_iff.mpr, List.append_nil]
    · intro r hr
      have h := outside r hr
      simpa using h
    · intro r hr
      have h := inside r hr
      exact decide_eq_true (by omega)
  · constructor
    · rintro (zero | ⟨r, hr, there⟩)
      · exact List.eq_nil_of_length_eq_zero (by omega)
      · rcases List.mem_append.mp hr with hr | hr
        · have h := inside r hr
          exact List.eq_nil_of_length_eq_zero (by omega)
        · exact absurd there (Nat.ne_of_gt (outside r hr))
    · rintro rfl
      have last := chain_end before
      rw [Nat.zero_add] at last
      rcases List.eq_nil_or_concat ws with rfl | ⟨front, r, rfl⟩
      · exact .inl total
      · refine .inr ⟨r, ?_, ?_⟩
        · simp
        · simp only [List.concat_eq_append, List.getLast?_append, List.getLast?_singleton,
            Option.some_or, Option.map_some, Option.getD_some] at last
          rw [total, last, List.concat_eq_append]
          rfl

theorem sequence_pos {rs : List FiledRecord} {n : Nat}
    (numbers : (rs.map fun r => r.sequence.val) = List.range' 1 n) :
    (rs.filter fun r => (0 : DurableSequence) < r.sequence) = rs := by
  refine List.filter_eq_self.mpr fun r hr => decide_eq_true ?_
  have mem : r.sequence.val ∈ List.range' 1 n := by
    rw [← numbers]
    exact List.mem_map_of_mem hr
  have pos := (List.mem_range'_1.mp mem).1
  rw [Fin.lt_def]
  exact pos

theorem lastSequenceOf_numbers {rs : List FiledRecord} {n : Nat}
    (numbers : (rs.map fun r => r.sequence.val) = List.range' 1 n) :
    (lastSequenceOf 0 rs).val = n := by
  rcases List.eq_nil_or_concat rs with rfl | ⟨front, r, rfl⟩
  · have len := congrArg List.length numbers
    simp only [List.map_nil, List.length_nil, List.length_range'] at len
    exact len
  · rw [List.concat_eq_append] at numbers ⊢
    rw [lastSequenceOf_append]
    cases n with
    | zero => exact absurd numbers (by simp)
    | succ n =>
      rw [List.map_append, List.range'_concat] at numbers
      have h := List.append_inj_right' numbers (by simp)
      simp only [List.map_cons, List.map_nil, List.cons.injEq, and_true] at h
      omega

theorem frames_length_ge (digest : Text → Word 32) (rs : List FiledRecord) :
    rs.length * journalHeaderBytes ≤ (frames (frameOf digest) rs).length := by
  induction rs with
  | nil => exact Nat.zero_le _
  | cons r rs ih =>
    rw [frames_cons, List.length_append, journalFrame_length, List.length_cons, Nat.succ_mul,
      JournalRecord.frameBytes]
    omega

/-- The records in front of a cut are numbered in a row as well. -/
theorem numbers_prefix {ws us : List FiledRecord} {n : Nat}
    (numbers : ((ws ++ us).map fun r => r.sequence.val) = List.range' 1 n) :
    (ws.map fun r => r.sequence.val) = List.range' 1 ws.length := by
  have len : ws.length ≤ n := by
    have h := congrArg List.length numbers
    simp only [List.length_map, List.length_append, List.length_range'] at h
    omega
  obtain ⟨m, rfl⟩ := Nat.exists_eq_add_of_le len
  rw [List.map_append, ← List.range'_append_1] at numbers
  exact List.append_inj_left numbers (by simp)

/-- **Torn-tail law.** A journal that was written by acknowledged appends and then cut at any byte
reads back exactly the records inside the cut, and reports a torn tail exactly when the cut is not
behind a record. Opening it cuts the torn tail off; the next append gets the number after the last
record, and is read back behind the old ones. -/
theorem torn_tail_law {items : List (RecordKind × Text)} {s : FileStore}
    (appended : (appendAll digest items).exec fresh = (.ok (), s)) (n : Nat)
    (supported : (s.journal.take n).length ≤ maxJournalBytes) :
    let cut := s.journal.take n
    let whole := wholeRecords s.records cut.length
    s.records.map content = items ∧
      (s.records.map fun r => r.sequence.val) = List.range' 1 items.length ∧
      (∃ report, readJournalFile digest (some cut) = .ok (whole, report) ∧
        (report.tornTailTruncated = true ↔ ¬ OnBoundary s.records cut.length)) ∧
      ∃ t, openStore digest { journal := some cut } = .ok t ∧ t.records = whole ∧
        t.journal = cut.take (truncateAt whole) ∧
        ∀ kind payload, payload.length ≤ maxRecordPayload → ∃ sequence u,
          (append digest kind payload .synced).exec t = (.ok sequence, u) ∧
          sequence.val = (lastSequenceOf 0 whole).val + 1 ∧
          (u.journal.length ≤ maxJournalBytes → ∃ v, openStore digest u.directory = .ok v ∧
            v.records.map FiledRecord.toJournalRecord =
              whole.map FiledRecord.toJournalRecord ++ [⟨kind, sequence, payload⟩]) := by
  intro cut whole
  obtain ⟨all, holds, records, contents, numbers, -⟩ := appendAll_ok holds_fresh appended
  rw [List.nil_append] at holds
  change s.records = all at records
  change (all.map fun r => r.sequence.val) = List.range' 1 items.length at numbers
  obtain ⟨ws, us, tail, torn, rfl, bytes, spelled, ends, short, last⟩ :=
    (readFrame_framing digest).spells_cut holds.chain n
  rw [← holds.bytes] at bytes spelled
  obtain ⟨inside, boundary⟩ := cut_eq holds.chain short last
  rw [← bytes, ← records] at inside boundary
  have whole_eq : whole = ws := inside
  have numbered := numbers_prefix numbers
  have read : readJournalFile digest (some cut) = .ok (ws, journalReport ws torn) :=
    readJournalFile_eq_ok_iff.mpr ⟨supported, torn, spelled, rfl⟩
  obtain ⟨repair, chain⟩ := repaired_eq spelled
  have opens : openStore digest { journal := some cut } =
      .ok (opened { journal := some cut } 0 ws (journalReport ws torn)) :=
    openStore_eq_ok_iff.mpr ⟨rfl, supported, ws, torn, spelled, rfl⟩
  generalize ht : opened { journal := some cut } 0 ws (journalReport ws torn) = t at opens
  have kept : t.records = ws := by
    rw [← ht]
    exact sequence_pos numbered
  have cut_off : t.journal = frames (frameOf digest) ws := by
    rw [← ht]
    exact repair
  refine ⟨records ▸ contents, records ▸ numbers, ⟨_, whole_eq ▸ read, ?_⟩, t, opens,
    kept.trans whole_eq.symm, ?_, ?_⟩
  · rw [boundary]
    exact ends
  · have at_end : truncateAt ws = (frames (frameOf digest) ws).length :=
      (chain_end chain).trans (Nat.zero_add _)
    rw [whole_eq, cut_off, at_end]
    change _ = (s.journal.take n).take _
    rw [bytes, List.take_left]
  · intro kind payload fits
    obtain ⟨found, _, spelled', holds', filtered, isOpen, snapshot, lastIs⟩ := openStore_ok opens
    have same : found = ws := (Spells.unique spelled' spelled).1
    subst same
    have lastVal : t.lastSequence.val = found.length := by
      rw [lastIs, kept]
      exact lastSequenceOf_numbers numbered
    have few : found.length * journalHeaderBytes ≤ maxJournalBytes := by
      have h := frames_length_ge digest found
      have le : (frames (frameOf digest) found).length ≤ cut.length := by
        change _ ≤ (s.journal.take n).length
        rw [bytes, List.length_append]
        exact Nat.le_add_right _ _
      have small : cut.length ≤ maxJournalBytes := supported
      omega
    have w : t.Writable payload := by
      refine ⟨isOpen, fits, ?_⟩
      rw [lastVal]
      unfold journalHeaderBytes maxJournalBytes at few
      omega
    refine ⟨t.lastSequence + 1, t.logged digest kind payload, append_synced w, ?_, ?_⟩
    · rw [(Store.lt_add_one w.room).2, lastVal, whole_eq, lastSequenceOf_numbers numbered]
    · intro small
      have logged := holds'.logged w kind
      have readable : Readable (t.logged digest kind payload).directory := by
        change Store.readSnapshotFile { snapshot := t.directory.snapshot } = _
        rw [snapshot]
        exact Eq.trans rfl (congrArg Except.ok snapshot.symm)
      refine ⟨_, openStore_frames readable logged.bytes logged.chain small, ?_⟩
      have floor : floorOf (t.logged digest kind payload).directory = 0 := by
        change (t.directory.snapshot.map SnapshotFile.sequence).getD 0 = 0
        rw [snapshot]
        rfl
      change (List.filter _ _).map _ = _
      have new_kept : (0 : DurableSequence) < t.lastSequence + 1 :=
        lt_of_le_of_lt (Fin.zero_le _) (Store.lt_add_one w.room).1
      rw [floor, List.filter_append, sequence_pos numbered, List.filter_cons_of_pos, whole_eq,
        List.map_append]
      · rfl
      · exact decide_eq_true new_kept

/-- Appends of payloads within the bound are acknowledged until the numbers run out. -/
theorem appendAll_total (digest : Text → Word 32) : ∀ {items : List (RecordKind × Text)} {s : FileStore},
    s.journalOpen = true → (∀ item ∈ items, item.2.length ≤ maxRecordPayload) →
      s.lastSequence.val + items.length < 2 ^ 64 →
        ∃ t, (appendAll digest items).exec s = (.ok (), t) ∧ t.journal.length =
          s.journal.length + (items.map fun item => journalHeaderBytes + item.2.length).sum
  | [], s, _, _, _ => ⟨s, rfl, rfl⟩
  | (kind, payload) :: items, s, isOpen, fit, room => by
    rw [List.length_cons] at room
    have w : s.Writable payload := ⟨isOpen, fit _ List.mem_cons_self, by omega⟩
    obtain ⟨-, val⟩ := Store.lt_add_one w.room
    have later : (s.logged digest kind payload).lastSequence.val + items.length < 2 ^ 64 := by
      change (s.lastSequence + 1).val + items.length < 2 ^ 64
      omega
    obtain ⟨t, run, len⟩ := appendAll_total digest (s := s.logged digest kind payload) isOpen
      (fun item mem => fit item (List.mem_cons_of_mem _ mem)) later
    refine ⟨t, ?_, ?_⟩
    · have first : (discard <| append digest kind payload .synced : Method Unit).exec s =
          (.ok (), s.logged digest kind payload) := Op.exec_bind_of_ok (append_synced w)
      exact (Op.exec_bind_of_ok first).trans run
    · rw [len, journal_logged, List.length_append, journalFrame_length, List.map_cons,
        List.sum_cons]
      change _ + (journalHeaderBytes + payload.length) + _ = _
      dsimp only
      omega

/-- The law on a journal of two records, cut inside the second. -/
theorem torn_tail_law_inside : ∃ s report,
    (appendAll crc32c [(.fabricBoot, [1]), (.fence, [2])]).exec fresh = (.ok (), s) ∧
      readJournalFile crc32c (some (s.journal.take 30)) =
        .ok (wholeRecords s.records (s.journal.take 30).length, report) ∧
      (report.tornTailTruncated = true ↔ ¬ OnBoundary s.records (s.journal.take 30).length) := by
  have fit : ∀ item ∈ [(RecordKind.fabricBoot, ([1] : Text)), (.fence, [2])],
      item.2.length ≤ maxRecordPayload := by decide
  obtain ⟨s, appended, -⟩ := appendAll_total crc32c (s := fresh) rfl fit (by decide)
  obtain ⟨-, -, ⟨report, read, torn⟩, -⟩ := torn_tail_law appended 30 (by
    rw [List.length_take]
    exact le_trans (Nat.min_le_left _ _) (by decide))
  exact ⟨s, report, appended, read, torn⟩

/-- A journal that grows past the supported size is refused, whole as it is. -/
theorem readJournalFile_large (digest : Text → Word 32) {payload : Text} {m : Nat}
    (fits : payload.length ≤ maxRecordPayload) (room : m < 2 ^ 64)
    (large : maxJournalBytes < m * (journalHeaderBytes + payload.length)) : ∃ s,
      (appendAll digest (List.replicate m (.fabricBoot, payload))).exec fresh = (.ok (), s) ∧
        readJournalFile digest (some (s.journal.take s.journal.length)) =
          .error (makeError .resourceExhausted "file exceeds the supported size") := by
  have fit : ∀ item ∈ List.replicate m (RecordKind.fabricBoot, payload),
      item.2.length ≤ maxRecordPayload := by
    intro item mem
    rw [List.eq_of_mem_replicate mem]
    exact fits
  have start : fresh.lastSequence.val + m < 2 ^ 64 := by
    rw [show fresh.lastSequence.val = 0 from rfl, Nat.zero_add]
    exact room
  obtain ⟨s, run, len⟩ := appendAll_total digest (s := fresh) rfl fit
    (by rwa [List.length_replicate])
  rw [List.map_replicate, List.sum_replicate_nat] at len
  have past : maxJournalBytes < s.journal.length := by
    rw [len]
    exact Nat.lt_of_lt_of_le large (Nat.le_add_left _ _)
  refine ⟨s, run, ?_⟩
  rw [List.take_length]
  unfold readJournalFile
  simp only [readAll, refuse, past, decide_true, if_true]
  rfl

/-- 257 records of the largest size are too many. -/
theorem journal_too_large : ∃ s,
    (appendAll crc32c (List.replicate 257 (.fabricBoot, List.replicate maxRecordPayload 0))).exec
        fresh = (.ok (), s) ∧
      readJournalFile crc32c (some (s.journal.take s.journal.length)) =
        .error (makeError .resourceExhausted "file exceeds the supported size") := by
  have full : (List.replicate maxRecordPayload 0 : Text).length = maxRecordPayload :=
    List.length_replicate
  refine readJournalFile_large crc32c (Nat.le_of_eq full) (by norm_num) ?_
  rw [full]
  norm_num [maxJournalBytes, journalHeaderBytes, maxRecordPayload]

/-! ## Failed appends -/

/-- One append and what becomes of its bytes. -/
structure Attempt where
  kind : RecordKind
  payload : Text
  write : Write
  deriving DecidableEq, Repr

/-- The handle after an append, whether it was acknowledged or not. -/
def tryAppend (digest : Text → Word 32) (s : FileStore) (a : Attempt) : FileStore :=
  ((append digest a.kind a.payload a.write).exec s).2

/-- The records that a list of appends has acknowledged, as the caller knows them. -/
def acknowledged (digest : Text → Word 32) : FileStore → List Attempt → List JournalRecord
  | _, [] => []
  | s, a :: as =>
    match ((append digest a.kind a.payload a.write).exec s).1 with
    | .ok sequence => ⟨a.kind, sequence, a.payload⟩ :: acknowledged digest (tryAppend digest s a) as
    | .error _ => acknowledged digest (tryAppend digest s a) as

/-- After the appends, the directory opens, and what it returns contains the records that were there
and every acknowledged one, in order; these are numbered in a row. -/
def Survives (digest : Text → Word 32) (s : FileStore) (as : List Attempt) : Prop :=
  ((acknowledged digest s as).map fun r => r.sequence.val) =
      List.range' (s.lastSequence.val + 1) (acknowledged digest s as).length ∧
    ∃ t, openStore digest (after (tryAppend digest) s as).directory = .ok t ∧
      (s.records.map FiledRecord.toJournalRecord ++ acknowledged digest s as).Sublist
        (t.records.map FiledRecord.toJournalRecord)

/-- An append that gets as far as the file starts where the handle believes that the file ends, and
stays within the supported size. -/
def Clean (s : FileStore) (a : Attempt) : Prop :=
  s.Writable a.payload → s.journal.length = s.journalBytes ∧
    s.journalBytes + (journalHeaderBytes + a.payload.length) ≤ maxJournalBytes

theorem tryAppend_cases (digest : Text → Word 32) (s : FileStore) (a : Attempt) :
    (s.Writable a.payload ∧
      ((append digest a.kind a.payload a.write).exec s).1 = .ok (s.lastSequence + 1) ∧
      tryAppend digest s a = s.logged digest a.kind a.payload) ∨
    ∃ e, ((append digest a.kind a.payload a.write).exec s).1 = .error e ∧
      (tryAppend digest s a = s ∨ s.Writable a.payload ∧ ∃ n, tryAppend digest s a =
        s.written ((frameOf digest (s.nextRecord a.kind a.payload)).take n)) := by
  have spec := ensures_append digest a.kind a.payload a.write s
  unfold Op.Ensures at spec
  unfold tryAppend
  cases result : ((append digest a.kind a.payload a.write).exec s).1 with
  | ok sequence =>
    rw [result] at spec
    obtain ⟨w, -, rfl, t⟩ := spec
    exact .inl ⟨w, rfl, t⟩
  | error e =>
    rw [result] at spec
    refine .inr ⟨e, rfl, ?_⟩
    rcases spec with same | ⟨w, n, -, t⟩
    · exact .inl same
    · exact .inr ⟨w, n, t⟩

/-- Once a failed append has left bytes, a clean run appends nothing any more. -/
theorem dirty_run {s : FileStore} (dirty : s.journal.length ≠ s.journalBytes) :
    ∀ {as : List Attempt}, Along (tryAppend digest) Clean s as →
      after (tryAppend digest) s as = s ∧ acknowledged digest s as = []
  | [], _ => ⟨rfl, rfl⟩
  | a :: as, ⟨clean, rest⟩ => by
    have stuck : ¬ s.Writable a.payload := fun w => dirty (clean w).1
    rcases tryAppend_cases digest s a with ⟨w, -⟩ | ⟨e, failed, same | ⟨w, -⟩⟩
    · exact absurd w stuck
    · rw [same] at rest
      obtain ⟨stays, none_acked⟩ := dirty_run dirty rest
      refine ⟨?_, ?_⟩
      · rw [after_cons, same, stays]
      · unfold acknowledged
        rw [failed, same, none_acked]
    · exact absurd w stuck

theorem written_nil {s : FileStore} {all : List FiledRecord} (h : Holds digest s all) :
    Holds digest (s.written []) all :=
  ⟨by rw [journal_written, List.append_nil, h.bytes], h.chain,
    fun isOpen => by rw [journal_written, List.append_nil]; exact h.size isOpen, h.floor, h.floor_le, h.below⟩

/-- A file that ends in the first bytes of one more frame opens, with that record or without it. -/
theorem openStore_beginning {dir : Directory} {all : List FiledRecord} {r : FiledRecord} {n : Nat}
    (readable : Readable dir)
    (bytes : dir.journal.getD [] = frames (frameOf digest) all ++ (frameOf digest r).take n)
    (chain : Chain (frameOf digest) Fits 0 none all)
    (fits : Fits (0 + (frames (frameOf digest) all).length) (lastOf none all) r)
    (small : (dir.journal.getD []).length ≤ maxJournalBytes) :
    ∃ more t, openStore digest dir = .ok t ∧
      t.records = (all ++ more).filter fun r => floorOf dir < r.sequence := by
  obtain ⟨more, torn, spelled, -⟩ := (readFrame_framing digest).spells_beginning chain fits n
  rw [← bytes] at spelled
  exact ⟨more, _, openStore_eq_ok_iff.mpr ⟨readable, small, all ++ more, torn, spelled, rfl⟩, rfl⟩

/-- From a handle in step with its file, a clean run keeps what it acknowledges. -/
theorem clean_run : ∀ {as : List Attempt} {s : FileStore} {all : List FiledRecord},
    Holds digest s all → Readable s.directory → s.journal.length ≤ maxJournalBytes →
      Along (tryAppend digest) Clean s as →
        ((acknowledged digest s as).map fun r => r.sequence.val) =
            List.range' (s.lastSequence.val + 1) (acknowledged digest s as).length ∧
          ∃ t, openStore digest (after (tryAppend digest) s as).directory = .ok t ∧
            ((all.filter fun r => s.snapshotSequence < r.sequence).map FiledRecord.toJournalRecord ++
              acknowledged digest s as).Sublist (t.records.map FiledRecord.toJournalRecord)
  | [], s, all, holds, readable, small, _ => by
    refine ⟨rfl, _, openStore_frames readable holds.bytes holds.chain small, ?_⟩
    change List.Sublist (_ ++ []) (List.map _ (List.filter _ all))
    rw [List.append_nil, holds.floor]
    exact List.Sublist.refl _
  | a :: as, s, all, holds, readable, small, ⟨clean, rest⟩ => by
    rcases tryAppend_cases digest s a with
      ⟨w, acked, next⟩ | ⟨e, failed, same | ⟨w, n, next⟩⟩
    · rw [next] at rest
      have fits : (s.logged digest a.kind a.payload).journal.length ≤ maxJournalBytes := by
        obtain ⟨start, room⟩ := clean w
        rw [journal_logged, List.length_append, journalFrame_length, start]
        exact room
      obtain ⟨numbers, t, opens, kept⟩ :=
        clean_run (holds.logged w a.kind) readable fits rest
      obtain ⟨lt, val⟩ := Store.lt_add_one w.room
      have above : s.snapshotSequence < s.lastSequence + 1 := lt_of_le_of_lt holds.floor_le lt
      have list : acknowledged digest s (a :: as) = ⟨a.kind, s.lastSequence + 1, a.payload⟩ ::
          acknowledged digest (s.logged digest a.kind a.payload) as := by
        rw [acknowledged, acked, next]
      refine ⟨?_, t, ?_, ?_⟩
      · rw [list, List.map_cons, numbers]
        change (s.lastSequence + 1).val :: List.range' ((s.lastSequence + 1).val + 1) _ = _
        rw [val, List.length_cons]
        rfl
      · rw [after_cons, next]
        exact opens
      · have stays : [s.nextRecord a.kind a.payload].filter
            (fun r => s.snapshotSequence < r.sequence) = [s.nextRecord a.kind a.payload] :=
          List.filter_cons_of_pos (decide_eq_true above)
        change (((all ++ [s.nextRecord a.kind a.payload]).filter
          fun r => s.snapshotSequence < r.sequence).map _ ++ _).Sublist _ at kept
        rw [List.filter_append, stays, List.map_append, List.append_assoc] at kept
        rw [list]
        exact kept
    · rw [same] at rest
      obtain ⟨numbers, kept⟩ := clean_run holds readable small rest
      have list : acknowledged digest s (a :: as) = acknowledged digest s as := by
        rw [acknowledged, failed, same]
      rw [list, after_cons, same]
      exact ⟨numbers, kept⟩
    · rw [next] at rest
      have list : acknowledged digest s (a :: as) =
          acknowledged digest (s.written ((frameOf digest (s.nextRecord a.kind a.payload)).take n))
            as := by
        rw [acknowledged, failed, next]
      rw [list, after_cons, next]
      rcases eq_or_ne ((frameOf digest (s.nextRecord a.kind a.payload)).take n) [] with none | some
      · rw [none] at rest ⊢
        have same_size : (s.written []).journal.length ≤ maxJournalBytes := by
          rw [journal_written, List.append_nil]
          exact small
        exact clean_run (written_nil holds) readable same_size rest
      · have dirty : (s.written
            ((frameOf digest (s.nextRecord a.kind a.payload)).take n)).journal.length ≠
            s.journalBytes := by
          rw [journal_written, List.length_append, (clean w).1]
          have pos := List.length_pos_of_ne_nil some
          omega
        obtain ⟨stays, none_acked⟩ := dirty_run dirty rest
        rw [stays, none_acked]
        have bounded : (s.written
            ((frameOf digest (s.nextRecord a.kind a.payload)).take n)).journal.length ≤
            maxJournalBytes := by
          obtain ⟨start, room⟩ := clean w
          have le := List.length_take_le' n (frameOf digest (s.nextRecord a.kind a.payload))
          rw [journalFrame_length] at le
          change _ ≤ journalHeaderBytes + a.payload.length at le
          rw [journal_written, List.length_append, start]
          omega
        have bytes : (s.written
            ((frameOf digest (s.nextRecord a.kind a.payload)).take n)).directory.journal.getD [] =
            frames (frameOf digest) all ++
              (frameOf digest (s.nextRecord a.kind a.payload)).take n := by
          rw [← holds.bytes]
          rfl
        have readable : Readable (s.written
            ((frameOf digest (s.nextRecord a.kind a.payload)).take n)).directory := readable
        obtain ⟨more, t, opens, records⟩ := openStore_beginning readable bytes holds.chain
          (holds.nextFits w a.kind) bounded
        refine ⟨rfl, t, opens, ?_⟩
        have floor : floorOf (s.written
            ((frameOf digest (s.nextRecord a.kind a.payload)).take n)).directory =
            s.snapshotSequence := holds.floor.symm
        rw [records, floor, List.append_nil, List.filter_append, List.map_append]
        exact List.sublist_append_left _ _

/-- **Failed appends do no harm** as long as no append is made behind the bytes that a failed one has
left, and the file stays within the supported size. -/
theorem survives_of_clean {dir : Directory} {s : FileStore} {as : List Attempt}
    (opens : openStore digest dir = .ok s) (clean : Along (tryAppend digest) Clean s as) :
    Survives digest s as := by
  obtain ⟨all, torn, -, holds, records, -, snapshot, -⟩ := openStore_ok opens
  obtain ⟨readable, small, rs, torn', spelled, rfl⟩ := openStore_eq_ok_iff.mp opens
  have bounded : (opened dir (floorOf dir) rs (journalReport rs torn')).journal.length ≤
      maxJournalBytes := by
    refine le_trans ?_ small
    change (repaired _ _ _).length ≤ _
    unfold repaired
    split
    · exact List.length_take_le' _ _
    · exact le_rfl
  obtain ⟨numbers, t, again, kept⟩ := clean_run holds readable bounded clean
  refine ⟨numbers, t, again, ?_⟩
  rw [records]
  exact kept

/-- A failed append that left ten bytes, and nothing behind it. -/
theorem survives_of_clean_last : Survives crc32c fresh
    [⟨.fabricBoot, [1], .synced⟩, ⟨.fabricBoot, [2], .failed 10⟩] :=
  survives_of_clean (openStore_empty crc32c)
    ⟨fun _ => ⟨rfl, by decide⟩, fun _ => ⟨by decide +kernel, by decide +kernel⟩, trivial⟩

/-- An append whose sync fails, and one that succeeds behind it: the file carries one number twice and
is refused, with the acknowledged record in it. -/
theorem failed_append_breaks_journal : ¬ Survives crc32c fresh
    [⟨.fabricBoot, [1], .failed 23⟩, ⟨.fabricBoot, [2], .synced⟩] := by
  rintro ⟨-, t, opens, -⟩
  have refused : openStore crc32c (after (tryAppend crc32c) fresh
      [⟨.fabricBoot, [1], .failed 23⟩, ⟨.fabricBoot, [2], .synced⟩]).directory =
      .error (makeError .corrupt "journal sequence numbers are not strictly increasing") := by
    decide +kernel
  rw [refused] at opens
  exact absurd opens (by simp)

end FileStore

end Brf
