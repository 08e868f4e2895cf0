import Brf.Journal
import Brf.StoreLaws

/-!
# What the journal file keeps

The reader and the writer of the journal fit together, and what one call of the store does to the
bytes of the file.

* `Fits` says which record may stand behind `last` at an offset; `readFrame_framing` is the contract
  of `Brf.Lib.Framing` for the frames of the journal.
* `FileStore.Holds s all`: the file of `s` is exactly the frames of `all`, and the handle is in step
  with it.

Results: `readJournalFile_eq_ok_iff`; `ensures_append`; opening a directory gives a handle that holds
the records that were read (`openStore_ok`, `openStore_spells`), and a synced append keeps that
(`Holds.logged`).
-/

namespace Brf

open Brf.Lib

variable {digest : Text → Word 32}

/-! ## Headers -/

theorem field_eq {bytes rest : Text} {i n : Nat} (pre field : Text)
    (h : bytes = pre ++ (field ++ rest))
    (hi : pre.length = i) (hn : field.length = n) : (bytes.drop i).take n = field := by
  subst hi hn
  rw [h, List.drop_left, List.take_left]

/-- A number between other fields. -/
theorem leField_eq {bytes rest : Text} {i n v : Nat} (pre : Text)
    (h : bytes = pre ++ (leBytes n v ++ rest)) (hi : pre.length = i) (small : v < 256 ^ n) :
    leValue ((bytes.drop i).take n) = v := by
  rw [field_eq pre (leBytes n v) h hi (leBytes_length n v), leValue_leBytes, Nat.mod_eq_of_lt small]

@[simp] theorem journalMagic_length : journalMagic.length = 4 := rfl

@[simp] theorem journalHeader_length (r : JournalRecord) :
    (journalHeader digest r).length = journalHeaderBytes := by
  simp [journalHeader, journalHeaderBytes]

@[simp] theorem journalFrame_length (r : JournalRecord) :
    (journalFrame digest r).length = r.frameBytes := by
  simp [journalFrame, JournalRecord.frameBytes]

theorem RecordKind.number_lt (kind : RecordKind) : kind.number < 256 ^ 2 := by
  have small := Enumeration.index_lt kind
  have count : (Enumeration.all (α := RecordKind)).length = 14 := rfl
  unfold RecordKind.number
  omega

@[simp] theorem parseRecordKind_number (kind : RecordKind) :
    parseRecordKind kind.number = .ok kind := by
  unfold parseRecordKind RecordKind.number
  simp only [Enumeration.ofIndex?_index]

theorem parseRecordKind_ok {value : Nat} {kind : RecordKind} (h : parseRecordKind value = .ok kind) :
    kind.number = value := by
  have numbered : ∀ n : Fin 14,
      (Enumeration.ofIndex? (α := RecordKind) n.val).map Enumeration.index = some n.val := by decide
  rcases value with _ | index
  · exact absurd h (by simp [parseRecordKind])
  · unfold parseRecordKind at h
    cases found : Enumeration.ofIndex? (α := RecordKind) index with
    | none => simp [found] at h
    | some kind' =>
      simp only [found, Except.ok.injEq] at h
      subst h
      have inside : index < 14 := by
        by_contra outside
        have none_there : Enumeration.ofIndex? (α := RecordKind) index = none :=
          List.getElem?_eq_none (Nat.le_of_not_lt outside)
        rw [none_there] at found
        exact absurd found (by simp)
      have h := numbered ⟨index, inside⟩
      rw [found] at h
      exact congrArg (· + 1) (Option.some.inj h)

/-- The record that may stand at `offset`, behind `last`. -/
structure Fits (offset : Nat) (last : Option FiledRecord) (r : FiledRecord) : Prop where
  size : r.payload.length ≤ maxRecordPayload
  place : r.fileOffset = offset
  rises : ∀ l ∈ last, l.sequence < r.sequence

/-- The bytes of a filed record. -/
abbrev frameOf (digest : Text → Word 32) (r : FiledRecord) : Text :=
  journalFrame digest r.toJournalRecord

theorem length_small {payload : Text} (h : payload.length ≤ maxRecordPayload) :
    (journalHeaderBytes + payload.length) % 256 ^ 4 = journalHeaderBytes + payload.length := by
  apply Nat.mod_eq_of_lt
  unfold maxRecordPayload at h
  unfold journalHeaderBytes
  omega

/-- What a turn does behind a whole header. -/
theorem readFrame_header {offset : Nat} {last : Option FiledRecord} {r : FiledRecord}
    (fits : Fits offset last r) (body : Text) :
    readFrame digest offset last (journalHeader digest r.toJournalRecord ++ body) =
      if body.length < r.payload.length then
        .torn ⟨journalHeaderBytes + body.length, ascii "journal ends with a truncated record body"⟩
      else if digest (body.take r.payload.length) ≠ digest r.payload then
        .refused ⟨.corrupt,
          ascii "journal record checksum mismatch at offset " ++ toDecimal offset⟩
      else .record { r with payload := body.take r.payload.length }
        (journalHeaderBytes + r.payload.length) := by
  obtain ⟨kind_seq_payload, fileOffset⟩ := r
  obtain ⟨kind, sequence, payload⟩ := kind_seq_payload
  obtain ⟨size, rfl, rises⟩ := fits
  change payload.length ≤ maxRecordPayload at size
  generalize hbytes : journalHeader digest ⟨kind, sequence, payload⟩ ++ body = bytes
  have total : bytes.length = journalHeaderBytes + body.length := by
    rw [← hbytes, List.length_append, journalHeader_length]
  have magic : bytes.take 4 = journalMagic := by
    have h := field_eq (i := 0) (n := 4) [] journalMagic
      (show bytes = _ by rw [← hbytes]; simp only [journalHeader, List.nil_append, List.append_assoc]; rfl) rfl rfl
    rwa [List.drop_zero] at h
  have length : leValue ((bytes.drop 4).take 4) = journalHeaderBytes + payload.length := by
    rw [field_eq journalMagic
      (leBytes 4 (journalHeaderBytes + payload.length))
      (by rw [← hbytes]; simp only [journalHeader, List.append_assoc]; rfl)
      (by rfl) (leBytes_length _ _), leValue_leBytes, length_small size]
  have sequenced : (Word.cast 64 (leValue ((bytes.drop 8).take 8)) : DurableSequence) = sequence := by
    rw [field_eq (journalMagic ++ leBytes 4 (journalHeaderBytes + payload.length))
      (leBytes 8 sequence.val)
      (by rw [← hbytes]; simp only [journalHeader, List.append_assoc]; rfl)
      (by simp) (leBytes_length _ _), leValue_leBytes]
    rw [Nat.mod_eq_of_lt (show sequence.val < 256 ^ 8 from sequence.isLt), Word.cast_val]
  have kinded : leValue ((bytes.drop 16).take 2) = kind.number := by
    rw [field_eq (journalMagic ++ (leBytes 4 (journalHeaderBytes + payload.length) ++
        leBytes 8 sequence.val))
      (leBytes 2 kind.number)
      (by rw [← hbytes]; simp only [journalHeader, List.append_assoc]; rfl)
      (by simp) (leBytes_length _ _), leValue_leBytes, Nat.mod_eq_of_lt kind.number_lt]
  have crc : (Word.cast 32 (leValue ((bytes.drop 18).take 4)) : Word 32) = digest payload := by
    rw [field_eq (journalMagic ++ (leBytes 4 (journalHeaderBytes + payload.length) ++
        (leBytes 8 sequence.val ++ leBytes 2 kind.number)))
      (leBytes 4 (digest payload).val)
      (by rw [← hbytes]; simp only [journalHeader, List.append_assoc]; rfl)
      (by simp) (leBytes_length _ _), leValue_leBytes]
    rw [Nat.mod_eq_of_lt (show (digest payload).val < 256 ^ 4 from (digest payload).isLt),
      Word.cast_val]
  have behind : bytes.drop journalHeaderBytes = body := by
    rw [← hbytes]
    exact List.drop_left' (journalHeader_length _)
  have after : (last.any fun l => sequence ≤ l.sequence) = false := by
    cases last with
    | none => rfl
    | some l =>
      have lt := rises l rfl
      simpa using lt
  unfold readFrame
  rw [if_neg (by omega), if_neg (by simp [magic])]
  simp only [length, sequenced, kinded, crc, behind, after, Nat.add_sub_cancel_left,
    parseRecordKind_number, total, Nat.add_lt_add_iff_left, Bool.false_eq_true, if_false]
  rw [if_neg (by omega), if_neg (by omega)]

theorem readFrame_whole {offset : Nat} {last : Option FiledRecord} {r : FiledRecord} (rest : Text)
    (fits : Fits offset last r) :
    readFrame digest offset last (frameOf digest r ++ rest) =
      .record r (frameOf digest r).length := by
  rw [frameOf, journalFrame, List.append_assoc, readFrame_header fits]
  rw [if_neg (by simp), List.take_left, if_neg (by simp)]
  simp [journalHeader_length, List.length_append]

theorem readFrame_cut {offset : Nat} {last : Option FiledRecord} {r : FiledRecord} {n : Nat}
    (fits : Fits offset last r) (short : n < (frameOf digest r).length) :
    ∃ tail, readFrame digest offset last ((frameOf digest r).take n) = .torn tail := by
  rw [journalFrame_length] at short
  by_cases header : n < journalHeaderBytes
  · have few : ((frameOf digest r).take n).length < journalHeaderBytes := by
      rw [List.length_take]
      omega
    unfold readFrame
    rw [if_pos few]
    exact ⟨_, rfl⟩
  · have split : (frameOf digest r).take n =
        journalHeader digest r.toJournalRecord ++ r.payload.take (n - journalHeaderBytes) := by
      rw [frameOf, journalFrame, List.take_append, journalHeader_length,
        List.take_of_length_le (by rw [journalHeader_length]; omega)]
    rw [split, readFrame_header fits]
    refine ⟨_, if_pos ?_⟩
    unfold JournalRecord.frameBytes at short
    rw [List.length_take]
    omega

theorem drop_split (bytes : Text) (i n : Nat) :
    bytes.drop i = (bytes.drop i).take n ++ bytes.drop (i + n) := by
  rw [← List.drop_drop, List.take_append_drop]

theorem leBytes_field {bytes : Text} {i n : Nat} (enough : i + n ≤ bytes.length) :
    leBytes n (leValue ((bytes.drop i).take n)) = (bytes.drop i).take n := by
  have len : ((bytes.drop i).take n).length = n := by
    rw [List.length_take, List.length_drop]
    omega
  have h := leBytes_leValue ((bytes.drop i).take n)
  rwa [len] at h

/-- What a turn takes is a whole frame, and its record fits. -/
theorem readFrame_sound {offset size : Nat} {last : Option FiledRecord} {bytes : Text}
    {r : FiledRecord} (h : readFrame digest offset last bytes = .record r size) :
    Fits offset last r ∧ size = (frameOf digest r).length ∧
      bytes = frameOf digest r ++ bytes.drop size := by
  unfold readFrame at h
  split at h
  · exact absurd h (by simp)
  rename_i enough
  split at h
  · exact absurd h (by simp)
  rename_i magic
  dsimp only at h
  generalize hlen : leValue ((bytes.drop 4).take 4) = length at h
  generalize hseq : leValue ((bytes.drop 8).take 8) = seq at h
  generalize hkind : leValue ((bytes.drop 16).take 2) = kindValue at h
  generalize hcrc : leValue ((bytes.drop 18).take 4) = crc at h
  split at h
  · exact absurd h (by simp)
  rename_i possible
  split at h
  · exact absurd h (by simp)
  rename_i bounded
  split at h
  · exact absurd h (by simp)
  rename_i present
  split at h
  · exact absurd h (by simp)
  rename_i checked
  split at h
  · exact absurd h (by simp)
  rename_i rises
  split at h
  · exact absurd h (by simp)
  rename_i kind parsed
  obtain ⟨rfl, rfl⟩ := Front.record.inj h
  rw [Decidable.not_not] at magic checked
  have headed : 22 ≤ bytes.length := Nat.le_of_not_lt enough
  have long : journalHeaderBytes = 22 := rfl
  have taken : ((bytes.drop journalHeaderBytes).take (length - journalHeaderBytes)).length =
      length - journalHeaderBytes := by
    rw [List.length_take, List.length_drop]
    omega
  have seqd : (Word.cast 64 seq : DurableSequence).val = seq := by
    rw [Word.val_cast, Nat.mod_eq_of_lt]
    have small := leValue_lt ((bytes.drop 8).take 8)
    rw [List.length_take, List.length_drop, Nat.min_eq_left (by omega), hseq] at small
    exact small
  have crcd : (Word.cast 32 crc : Word 32).val = crc := by
    rw [Word.val_cast, Nat.mod_eq_of_lt]
    have small := leValue_lt ((bytes.drop 18).take 4)
    rw [List.length_take, List.length_drop, Nat.min_eq_left (by omega), hcrc] at small
    exact small
  refine ⟨⟨?_, rfl, ?_⟩, ?_, ?_⟩
  · change ((bytes.drop journalHeaderBytes).take (length - journalHeaderBytes)).length ≤ _
    rw [taken]
    omega
  · rintro l ⟨⟩
    simpa using rises
  · rw [journalFrame_length]
    change length = journalHeaderBytes +
      ((bytes.drop journalHeaderBytes).take (length - journalHeaderBytes)).length
    rw [taken]
    omega
  · have header : journalHeader digest
        { kind, sequence := Word.cast 64 seq,
          payload := (bytes.drop journalHeaderBytes).take (length - journalHeaderBytes) } =
        bytes.take 4 ++ ((bytes.drop 4).take 4 ++ ((bytes.drop 8).take 8 ++
          ((bytes.drop 16).take 2 ++ (bytes.drop 18).take 4))) := by
      unfold journalHeader
      rw [magic, taken, checked, seqd, crcd, parseRecordKind_ok parsed,
        show journalHeaderBytes + (length - journalHeaderBytes) = length by omega,
        ← hlen, ← hseq, ← hkind, ← hcrc, leBytes_field (by omega), leBytes_field (by omega),
        leBytes_field (by omega), leBytes_field (by omega)]
    rw [frameOf, journalFrame, header]
    simp only [List.append_assoc]
    have whole : bytes = bytes.take 4 ++ bytes.drop 4 := (List.take_append_drop 4 bytes).symm
    rw [show bytes.drop length =
      bytes.drop (journalHeaderBytes + (length - journalHeaderBytes)) by congr 1; omega]
    have crc_on : bytes.drop 18 = (bytes.drop 18).take 4 ++ bytes.drop journalHeaderBytes :=
      drop_split bytes 18 4
    have kind_on : bytes.drop 16 = (bytes.drop 16).take 2 ++ bytes.drop 18 := drop_split bytes 16 2
    have sequence_on : bytes.drop 8 = (bytes.drop 8).take 8 ++ bytes.drop 16 := drop_split bytes 8 8
    have length_on : bytes.drop 4 = (bytes.drop 4).take 4 ++ bytes.drop 8 := drop_split bytes 4 4
    rw [← drop_split, ← crc_on, ← kind_on, ← sequence_on, ← length_on]
    exact whole

/-- The reader and the writer of the journal agree. -/
theorem readFrame_framing (digest : Text → Word 32) :
    Framing (readFrame digest) (frameOf digest) Fits where
  pos r := by
    rw [journalFrame_length]
    exact Nat.add_pos_left (by decide) _
  whole rest fits := readFrame_whole rest fits
  cut fits _ short := readFrame_cut fits short
  sound h := readFrame_sound h

/-! ## Chains of records -/

theorem frames_length (rs : List FiledRecord) :
    (frames (frameOf digest) rs).length = Store.fileBytes (rs.map FiledRecord.toJournalRecord) := by
  induction rs with
  | nil => rfl
  | cons r rs ih =>
    rw [frames_cons, List.length_append, ih, journalFrame_length]
    simp [Store.fileBytes]

/-- Records in a chain rise. -/
theorem chain_rising : ∀ {offset : Nat} {last : Option FiledRecord} {rs : List FiledRecord},
    Chain (frameOf digest) Fits offset last rs →
      rs.Pairwise (fun a b => a.sequence < b.sequence) ∧
        ∀ r ∈ rs, ∀ l ∈ last, l.sequence < r.sequence
  | _, _, [], _ => ⟨List.Pairwise.nil, fun _ hr => absurd hr List.not_mem_nil⟩
  | _, last, r :: rs, ⟨fits, chain⟩ => by
    obtain ⟨rising, above⟩ := chain_rising chain
    refine ⟨List.pairwise_cons.mpr ⟨fun b hb => above b hb r rfl, rising⟩, ?_⟩
    intro b hb l hl
    rcases List.mem_cons.mp hb with rfl | hb
    · exact fits.rises l hl
    · exact lt_trans (fits.rises l hl) (above b hb r rfl)

/-- A chain ends where its last record ends. -/
theorem chain_end : ∀ {offset : Nat} {last : Option FiledRecord} {rs : List FiledRecord},
    Chain (frameOf digest) Fits offset last rs →
      (rs.getLast?.map FiledRecord.fileEnd).getD offset =
        offset + (frames (frameOf digest) rs).length
  | _, _, [], _ => rfl
  | offset, last, [r], ⟨fits, _⟩ => by
    simp [FiledRecord.fileEnd, fits.place]
  | offset, last, r :: r' :: rs, ⟨fits, chain⟩ => by
    have ih := chain_end chain
    have some_last : (r' :: rs).getLast? = some ((r' :: rs).getLast (by simp)) :=
      List.getLast?_eq_some_getLast (by simp)
    rw [List.getLast?_cons_cons, frames_cons, List.length_append, ← Nat.add_assoc, ← ih, some_last]
    rfl

theorem chain_sizes : ∀ {offset : Nat} {last : Option FiledRecord} {rs : List FiledRecord},
    Chain (frameOf digest) Fits offset last rs →
      ∀ r ∈ rs, offset ≤ r.fileOffset ∧ r.fileEnd ≤ offset + (frames (frameOf digest) rs).length
  | _, _, [], _, _, hr => absurd hr List.not_mem_nil
  | offset, last, r :: rs, ⟨fits, chain⟩, b, hb => by
    rw [frames_cons, List.length_append]
    rcases List.mem_cons.mp hb with rfl | hb
    · rw [FiledRecord.fileEnd, fits.place, journalFrame_length]
      omega
    · have ih := chain_sizes chain b hb
      omega

/-! ## Reading -/

theorem readAll_ok {file : Option Text} {limit : Nat} {bytes : Text}
    (h : readAll file limit = .ok bytes) : file = some bytes ∧ bytes.length ≤ limit := by
  cases file with
  | none => exact absurd h (by simp [readAll])
  | some found =>
    obtain ⟨⟨⟩, small, h⟩ := Result.bind_eq_ok.mp h
    obtain rfl := Except.ok.inj h
    refine ⟨rfl, ?_⟩
    by_contra large
    simp [refuse, Nat.lt_of_not_le large] at small

theorem readAll_eq {bytes : Text} {limit : Nat} (small : bytes.length ≤ limit) :
    readAll (some bytes) limit = .ok bytes := by
  simp only [readAll, refuse, Nat.not_lt.mpr small, decide_false, Bool.false_eq_true, if_false]
  rfl

/-- What a file says. -/
def FileSpells (digest : Text → Word 32) (bytes : Text) (rs : List FiledRecord)
    (torn : Option TornTail) : Prop :=
  Spells (readFrame digest) 0 none bytes rs torn

/-- `read_journal_file` returns what the file says, within the supported size. -/
theorem readJournalFile_eq_ok_iff {bytes : Text} {rs : List FiledRecord} {report : RecoveryReport} :
    readJournalFile digest (some bytes) = .ok (rs, report) ↔ bytes.length ≤ maxJournalBytes ∧
      ∃ torn, FileSpells digest bytes rs torn ∧ report = journalReport rs torn := by
  have computes := fun rs torn => scan_eq_ok_iff (readFrame_framing digest).consuming bytes.length
    0 none bytes rs torn (Nat.le_refl bytes.length)
  unfold readJournalFile
  constructor
  · intro h
    obtain ⟨found, read, h⟩ := Result.bind_eq_ok.mp h
    obtain ⟨same, small⟩ := readAll_ok read
    obtain rfl := Option.some.inj same
    obtain ⟨⟨rs', torn⟩, scanned, h⟩ := Result.bind_eq_ok.mp h
    obtain ⟨rfl, rfl⟩ := Prod.mk.inj (Except.ok.inj h)
    exact ⟨small, torn, (computes rs' torn).mp scanned, rfl⟩
  · rintro ⟨small, torn, spelled, rfl⟩
    rw [readAll_eq small]
    refine Result.bind_eq_ok.mpr ⟨bytes, rfl, ?_⟩
    exact Result.bind_eq_ok.mpr ⟨(rs, torn), (computes rs torn).mpr spelled, rfl⟩

theorem readFrame_refused {offset : Nat} {last : Option FiledRecord} {bytes : Text} {e : Error}
    (h : readFrame digest offset last bytes = .refused e) : e.code ≠ .notFound := by
  unfold readFrame at h
  dsimp only at h
  repeat' split at h
  all_goals cases h
  all_goals simp [makeError]

theorem readJournalFile_error {bytes : Text} {e : Error}
    (h : readJournalFile digest (some bytes) = .error e) : e.code ≠ .notFound := by
  unfold readJournalFile at h
  by_cases small : bytes.length ≤ maxJournalBytes
  · rw [readAll_eq small] at h
    cases scanned : scan (readFrame digest) bytes.length 0 none bytes with
    | ok found =>
      change (scan (readFrame digest) bytes.length 0 none bytes >>= _) = _ at h
      rw [scanned] at h
      exact absurd h (by simp [bind, Except.bind])
    | error e' =>
      change (scan (readFrame digest) bytes.length 0 none bytes >>= _) = _ at h
      rw [scanned] at h
      obtain rfl := Except.error.inj h
      obtain ⟨_, _, _, turn⟩ := scan_error scanned
      exact readFrame_refused turn
  · have large : readAll (some bytes) maxJournalBytes =
        .error (makeError .resourceExhausted "file exceeds the supported size") := by
      simp only [readAll, refuse, Nat.lt_of_not_le small, decide_true, if_true]
      rfl
    rw [large] at h
    obtain rfl := Except.error.inj h
    decide

namespace FileStore

theorem readRecords_eq_ok_iff {file : Option Text} {rs : List FiledRecord}
    {report : RecoveryReport} :
    readRecords digest file = .ok (rs, report) ↔ (file.getD []).length ≤ maxJournalBytes ∧
      ∃ torn, FileSpells digest (file.getD []) rs torn ∧ report = journalReport rs torn := by
  cases file with
  | none =>
    have missing : readRecords digest none = .ok ([], {}) := rfl
    rw [missing]
    constructor
    · intro h
      obtain ⟨rfl, rfl⟩ := Prod.mk.inj (Except.ok.inj h)
      exact ⟨Nat.zero_le _, none, .done 0 none, rfl⟩
    · rintro ⟨-, torn, spelled, rfl⟩
      cases spelled with
      | done => rfl
      | torn some_left => exact absurd rfl some_left
      | record some_left => exact absurd rfl some_left
  | some bytes =>
    simp only [Option.getD_some]
    rw [← readJournalFile_eq_ok_iff]
    unfold readRecords
    cases read : readJournalFile digest (some bytes) with
    | ok found => exact Iff.rfl
    | error e =>
      have present := readJournalFile_error read
      simp [present]

/-- A readable snapshot file is within the supported size. -/
def Readable (dir : Directory) : Prop :=
  Store.readSnapshotFile { snapshot := dir.snapshot } = .ok dir.snapshot

/-- The sequence the snapshot of a directory accounts for. -/
def floorOf (dir : Directory) : DurableSequence := (dir.snapshot.map SnapshotFile.sequence).getD 0

theorem readSnapshotFile_ok {disk : Disk} {found : Option SnapshotFile}
    (h : Store.readSnapshotFile disk = .ok found) : found = disk.snapshot := by
  unfold Store.readSnapshotFile at h
  cases hs : disk.snapshot with
  | none =>
    rw [hs] at h
    exact (Except.ok.inj h).symm
  | some file =>
    rw [hs] at h
    obtain ⟨⟨⟩, -, h⟩ := Result.bind_eq_ok.mp h
    exact (Except.ok.inj h).symm

/-- `open` succeeds exactly on a readable snapshot and a journal that is read, and repairs it. -/
theorem openStore_eq_ok_iff {dir : Directory} {s : FileStore} :
    openStore digest dir = .ok s ↔ Readable dir ∧
      (dir.journal.getD []).length ≤ maxJournalBytes ∧
      ∃ rs torn, FileSpells digest (dir.journal.getD []) rs torn ∧
        s = opened dir (floorOf dir) rs (journalReport rs torn) := by
  unfold openStore
  constructor
  · intro h
    obtain ⟨snapshot, readable, h⟩ := Result.bind_eq_ok.mp h
    obtain rfl := readSnapshotFile_ok readable
    obtain ⟨⟨rs, found⟩, read, h⟩ := Result.bind_eq_ok.mp h
    obtain ⟨small, torn, spelled, rfl⟩ := readRecords_eq_ok_iff.mp read
    exact ⟨readable, small, rs, torn, spelled, (Except.ok.inj h).symm⟩
  · rintro ⟨readable, small, rs, torn, spelled, rfl⟩
    refine Result.bind_eq_ok.mpr ⟨dir.snapshot, readable, ?_⟩
    refine Result.bind_eq_ok.mpr ⟨(rs, journalReport rs torn), ?_, rfl⟩
    exact readRecords_eq_ok_iff.mpr ⟨small, torn, spelled, rfl⟩

/-! ## The handle -/

/-- The file of a handle is the frames of `all`, and the handle is in step with it. -/
structure Holds (digest : Text → Word 32) (s : FileStore) (all : List FiledRecord) : Prop where
  bytes : s.journal = frames (frameOf digest) all
  chain : Chain (frameOf digest) Fits 0 none all
  size : s.journalOpen = true → s.journalBytes = s.journal.length
  floor : s.snapshotSequence = floorOf s.directory
  floor_le : s.snapshotSequence ≤ s.lastSequence
  below : ∀ r ∈ all, r.sequence ≤ s.lastSequence

theorem lastSequenceOf_append (floor : DurableSequence) (rs : List FiledRecord) (r : FiledRecord) :
    lastSequenceOf floor (rs ++ [r]) = r.sequence := by
  simp [lastSequenceOf]

theorem lastSequenceOf_le {floor : DurableSequence} {rs : List FiledRecord}
    (rising : rs.Pairwise fun a b => a.sequence < b.sequence) :
    ∀ r ∈ rs, r.sequence ≤ lastSequenceOf floor rs := by
  intro r hr
  rcases List.eq_nil_or_concat rs with rfl | ⟨front, b, rfl⟩
  · exact absurd hr List.not_mem_nil
  · rw [List.concat_eq_append] at hr rising ⊢
    rw [lastSequenceOf_append]
    rcases List.mem_append.mp hr with hr | hr
    · exact le_of_lt ((List.pairwise_append.mp rising).2.2 r hr b List.mem_cons_self)
    · rw [List.mem_singleton.mp hr]

theorem floor_le_lastSequenceOf (floor : DurableSequence) (rs : List FiledRecord) :
    floor ≤ lastSequenceOf floor (rs.filter fun r => floor < r.sequence) := by
  rcases List.eq_nil_or_concat (rs.filter fun r => floor < r.sequence) with none_left | ⟨front, b, h⟩
  · rw [none_left]
    exact le_rfl
  · have mem : b ∈ rs.filter fun r => floor < r.sequence := by
      rw [h, List.concat_eq_append]
      exact List.mem_append_right _ List.mem_cons_self
    rw [h, List.concat_eq_append, lastSequenceOf_append]
    exact le_of_lt (of_decide_eq_true (List.mem_filter.mp mem).2)

/-- Repairing a file leaves the frames of the records that were read. -/
theorem repaired_eq {bytes : Text} {rs : List FiledRecord} {torn : Option TornTail}
    (spelled : FileSpells digest bytes rs torn) :
    repaired rs (journalReport rs torn) bytes = frames (frameOf digest) rs ∧
      Chain (frameOf digest) Fits 0 none rs := by
  obtain ⟨chain, tail, split, ends⟩ := (readFrame_framing digest).spells_sound spelled
  refine ⟨?_, chain⟩
  have cut : truncateAt rs = (frames (frameOf digest) rs).length :=
    (chain_end chain).trans (Nat.zero_add _)
  unfold repaired
  cases torn with
  | none =>
    have whole : tail = [] := by
      by_contra some_left
      exact absurd (ends.mpr some_left) (by simp)
    rw [split, whole, List.append_nil]
    rfl
  | some t =>
    have truncated : (journalReport rs (some t)).tornTailTruncated = true := rfl
    rw [if_pos truncated, cut, split, List.take_left]

/-- **Opening**: the handle holds the records that were read. -/
theorem openStore_ok {dir : Directory} {s : FileStore} (h : openStore digest dir = .ok s) :
    ∃ all torn, FileSpells digest (dir.journal.getD []) all torn ∧ Holds digest s all ∧
      s.records = (all.filter fun r => floorOf dir < r.sequence) ∧ s.journalOpen = true ∧
      s.directory.snapshot = dir.snapshot ∧ s.lastSequence = lastSequenceOf (floorOf dir) s.records := by
  obtain ⟨-, -, all, torn, spelled, rfl⟩ := openStore_eq_ok_iff.mp h
  obtain ⟨bytes, chain⟩ := repaired_eq spelled
  refine ⟨all, torn, spelled, ⟨bytes, chain, fun _ => rfl, rfl, ?_, ?_⟩, rfl, rfl, rfl, rfl⟩
  · exact floor_le_lastSequenceOf _ _
  · intro r hr
    obtain ⟨rising, -⟩ := chain_rising chain
    by_cases above : floorOf dir < r.sequence
    · exact lastSequenceOf_le (rising.filter _) r (List.mem_filter.mpr ⟨hr, decide_eq_true above⟩)
    · exact le_trans (not_lt.mp above) (floor_le_lastSequenceOf _ _)

/-- A directory whose file is whole frames opens. -/
theorem openStore_frames {dir : Directory} {all : List FiledRecord} (readable : Readable dir)
    (bytes : dir.journal.getD [] = frames (frameOf digest) all)
    (chain : Chain (frameOf digest) Fits 0 none all)
    (small : (dir.journal.getD []).length ≤ maxJournalBytes) :
    openStore digest dir = .ok (opened dir (floorOf dir) all (journalReport all none)) := by
  refine openStore_eq_ok_iff.mpr ⟨readable, small, all, none, ?_, rfl⟩
  rw [bytes]
  exact (readFrame_framing digest).spells_frames chain

/-! ## Appending -/

/-- What an append needs besides a working disk. -/
structure Writable (s : FileStore) (payload : Text) : Prop where
  journalOpen : s.journalOpen = true
  fits : payload.length ≤ maxRecordPayload
  room : s.lastSequence.val + 1 < 2 ^ 64

/-- The record that an append adds. -/
def nextRecord (s : FileStore) (kind : RecordKind) (payload : Text) : FiledRecord :=
  { kind, sequence := s.lastSequence + 1, payload, fileOffset := s.journalBytes }

/-- The handle after an acknowledged append. -/
def logged (digest : Text → Word 32) (s : FileStore) (kind : RecordKind) (payload : Text) :
    FileStore :=
  let record := s.nextRecord kind payload
  { s.written (frameOf digest record) with
    journalBytes := s.journalBytes + record.frameBytes
    lastSequence := s.lastSequence + 1
    records := s.records ++ [record] }

/-- What an append does: it adds its record, or leaves some first part of the frame behind. -/
theorem ensures_append (digest : Text → Word 32) (kind : RecordKind) (payload : Text) (write : Write) (s : FileStore) :
    Op.Ensures (append digest kind payload write) s (fun r t => match r with
      | .ok sequence => s.Writable payload ∧ write = .synced ∧ sequence = s.lastSequence + 1 ∧
          t = s.logged digest kind payload
      | .error _ => t = s ∨ s.Writable payload ∧ ∃ n, write = .failed n ∧
          t = s.written ((frameOf digest (s.nextRecord kind payload)).take n)) := by
  unfold append
  apply Op.ensures_get_bind
  refine Op.ensures_refuseIf_bind (fun journalOpen => ?_) fun _ => .inl rfl
  refine Op.ensures_refuseIf_bind (fun fits => ?_) fun _ => .inl rfl
  refine Op.ensures_lift_bind (fun next hnext => ?_) fun _ _ => .inl rfl
  obtain ⟨rfl, room⟩ := Store.next_eq_ok hnext
  have writable : s.Writable payload := ⟨by simpa using journalOpen, by simpa using fits, room⟩
  cases write with
  | failed n => exact .inr ⟨writable, n, rfl, rfl⟩
  | synced => exact ⟨writable, rfl, rfl, rfl⟩

/-- An append that is writable and synced is acknowledged. -/
theorem append_synced {kind : RecordKind} {payload : Text} {s : FileStore}
    (w : s.Writable payload) :
    (append digest kind payload .synced).exec s =
      (.ok (s.lastSequence + 1), s.logged digest kind payload) := by
  have opened : (!s.journalOpen) = false := by rw [w.journalOpen]; rfl
  have fits : decide (maxRecordPayload < payload.length) = false :=
    decide_eq_false (Nat.not_lt.mpr w.fits)
  have next : s.lastSequence.next = .ok (s.lastSequence + 1) := by
    have room := w.room
    unfold Counter.next
    rw [if_neg (by omega)]
  unfold append
  rw [Op.exec_get_bind]
  simp only [opened, fits, next]
  rfl

theorem journal_written (s : FileStore) (bytes : Text) :
    (s.written bytes).journal = s.journal ++ bytes := rfl

theorem journal_logged (s : FileStore) (kind : RecordKind) (payload : Text) :
    (s.logged digest kind payload).journal =
      s.journal ++ frameOf digest (s.nextRecord kind payload) := rfl

/-- The next record fits behind the records of the file. -/
theorem Holds.nextFits {s : FileStore} {all : List FiledRecord} (h : Holds digest s all)
    {payload : Text} (w : s.Writable payload) (kind : RecordKind) :
    Fits (0 + (frames (frameOf digest) all).length) (lastOf none all)
      (s.nextRecord kind payload) := by
  refine ⟨w.fits, ?_, ?_⟩
  · change s.journalBytes = _
    rw [h.size w.journalOpen, h.bytes, Nat.zero_add]
  · intro l hl
    refine lt_of_le_of_lt (h.below l ?_) (Store.lt_add_one w.room).1
    have mem : ∀ (rs : List FiledRecord) (last : Option FiledRecord),
        l ∈ lastOf last rs → l ∈ last ∨ l ∈ rs := by
      intro rs
      induction rs with
      | nil => exact fun last h => .inl h
      | cons r rs ih =>
        intro last h
        rcases ih (some r) h with h | h
        · obtain rfl := Option.some.inj h
          exact .inr List.mem_cons_self
        · exact .inr (List.mem_cons_of_mem _ h)
    rcases mem all none hl with h | h
    · exact absurd h (by simp)
    · exact h

/-- **A synced append** adds its record to the file. -/
theorem Holds.logged {s : FileStore} {all : List FiledRecord} (h : Holds digest s all)
    {payload : Text} (w : s.Writable payload) (kind : RecordKind) :
    Holds digest (s.logged digest kind payload) (all ++ [s.nextRecord kind payload]) := by
  obtain ⟨lt, -⟩ := Store.lt_add_one w.room
  refine ⟨?_, ?_, ?_, h.floor, ?_, ?_⟩
  · rw [journal_logged, h.bytes, frames_append, frames_cons, frames_nil, List.append_nil]
  · exact (chain_append _ _ _ _).mpr ⟨h.chain, h.nextFits w kind, trivial⟩
  · intro _
    rw [journal_logged, List.length_append, ← h.size w.journalOpen, journalFrame_length]
    rfl
  · exact le_of_lt (lt_of_le_of_lt h.floor_le lt)
  · intro r hr
    rcases List.mem_append.mp hr with hr | hr
    · exact le_of_lt (lt_of_le_of_lt (h.below r hr) lt)
    · rw [List.mem_singleton.mp hr]
      exact le_rfl

/-! ## Snapshots and rotation -/

/-- The handle after its snapshot has been replaced. -/
def withSnapshot (s : FileStore) (payload : Text) : FileStore :=
  { s with
    directory := { s.directory with snapshot := some { sequence := s.lastSequence, payload } }
    snapshotSequence := s.lastSequence }

/-- The handle after its journal file has been removed. -/
def removed (s : FileStore) : FileStore :=
  { s with directory := { s.directory with journal := none }, journalOpen := false }

/-- The handle after its journal file has been removed and created again. -/
def rotated (s : FileStore) : FileStore :=
  { s with
    directory := { s.directory with journal := some [] }
    journalOpen := true
    journalBytes := 0
    records := [] }

theorem ensures_writeSnapshot (payload : Text) (fails : Bool) (s : FileStore) :
    Op.Ensures (writeSnapshot payload fails) s (fun r t => match r with
      | .ok _ => payload.length ≤ maxSnapshotPayload ∧ t = s.withSnapshot payload
      | .error _ => t = s) := by
  unfold writeSnapshot
  refine Op.ensures_refuseIf_bind (fun fits => ?_) fun _ => rfl
  refine Op.ensures_refuseIf_bind (fun _ => ?_) fun _ => rfl
  exact ⟨by simpa using fits, rfl⟩

theorem ensures_rotateJournal (unsynced lost : Bool) (s : FileStore) :
    Op.Ensures (rotateJournal unsynced lost) s (fun r t =>
      (∃ e, r = .error e) ∧ t = s ∨ (∃ e, r = .error e) ∧ t = s.removed ∨
        r = .ok () ∧ t = s.rotated) := by
  unfold rotateJournal
  apply Op.ensures_get_bind
  refine Op.ensures_refuseIf_bind (fun _ => ?_) fun _ => .inl ⟨⟨_, rfl⟩, rfl⟩
  apply Op.ensures_modify_bind
  refine Op.ensures_refuseIf_bind (fun _ => ?_) fun _ => .inr (.inl ⟨⟨_, rfl⟩, rfl⟩)
  exact .inr (.inr ⟨rfl, rfl⟩)

/-- A snapshot leaves the file alone. -/
theorem Holds.withSnapshot {s : FileStore} {all : List FiledRecord} (h : Holds digest s all)
    (payload : Text) : Holds digest (s.withSnapshot payload) all :=
  ⟨h.bytes, h.chain, h.size, rfl, le_rfl, h.below⟩

theorem Holds.removed {s : FileStore} {all : List FiledRecord} (h : Holds digest s all) :
    Holds digest s.removed [] :=
  ⟨rfl, trivial, fun isOpen => absurd isOpen Bool.false_ne_true, h.floor, h.floor_le,
    fun _ hr => absurd hr List.not_mem_nil⟩

theorem Holds.rotated {s : FileStore} {all : List FiledRecord} (h : Holds digest s all) :
    Holds digest s.rotated [] :=
  ⟨rfl, trivial, fun _ => rfl, h.floor, h.floor_le, fun _ hr => absurd hr List.not_mem_nil⟩

end FileStore

end Brf
