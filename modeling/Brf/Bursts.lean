import Brf.JournalLaws
import Brf.Lib.Checksum
import Brf.ProtocolLaws
import Brf.Snapshot

/-!
# Damaged bytes

What the checksums of the wire, of the journal and of the snapshot find.

* `Burst bytes bytes'`: the two differ in at most four adjacent bytes.
* `crc32c` absorbs bytes with a steep table (`Brf.Lib.Checksum`), so it tells the two apart
  (`crc32c_burst`).
* The checksum of a frame and of a record of the journal covers the payload. The seal of a snapshot
  covers the whole file before it and stands behind it, so damage that reaches into the seal is found
  as well (`sealed_burst`).

Results: `crc32c_burst` and `bursts_refused`.
-/

namespace Brf

open Brf.Lib

/-- The two differ, and only in at most four adjacent bytes. -/
def Burst (bytes bytes' : Text) : Prop :=
  ∃ front as bs back : Text, bytes = front ++ as ++ back ∧ bytes' = front ++ bs ++ back ∧
    as.length = bs.length ∧ as.length ≤ 4 ∧ as ≠ bs

theorem Burst.length {bytes bytes' : Text} (h : Burst bytes bytes') :
    bytes.length = bytes'.length := by
  obtain ⟨front, as, bs, back, rfl, rfl, long, -⟩ := h
  simp only [List.length_append, long]

/-! ## The digest -/

/-- The polynomial of `crc32c` has its highest coefficient. -/
theorem crcTable_steep : Checksum.Steep crcTable where
  small := by decide +kernel
  steep i j hi hj same := by
    have different : ((List.range 256).map fun i => crcTable i / 2 ^ 24).Nodup := by decide +kernel
    exact List.inj_on_of_nodup_map different (List.mem_range.mpr hi) (List.mem_range.mpr hj) same

/-- The state before the last exclusive or. -/
def crcState (bytes : Text) : Nat := Checksum.absorbs crcTable 0xFFFFFFFF bytes

theorem crcState_lt (bytes : Text) : crcState bytes < 2 ^ 32 :=
  Checksum.absorbs_lt crcTable_steep bytes (by decide)

theorem crc32c_val (bytes : Text) : (crc32c bytes).val = crcState bytes ^^^ 0xFFFFFFFF := by
  have small : crcState bytes ^^^ 0xFFFFFFFF < 2 ^ 32 :=
    Nat.xor_lt_two_pow (crcState_lt bytes) (by decide)
  exact (Word.val_cast (w := 32) _).trans (Nat.mod_eq_of_lt small)

theorem crcState_burst {bytes bytes' : Text} (burst : Burst bytes bytes') :
    crcState bytes ≠ crcState bytes' := by
  obtain ⟨front, as, bs, back, rfl, rfl, long, few, differ⟩ := burst
  exact Checksum.burst_detected crcTable_steep (by decide) long few differ

/-- **`crc32c` finds bursts.** -/
theorem crc32c_burst {bytes bytes' : Text} (burst : Burst bytes bytes') :
    crc32c bytes ≠ crc32c bytes' := by
  intro same
  have states := congrArg Fin.val same
  rw [crc32c_val, crc32c_val] at states
  exact crcState_burst burst (Nat.xor_left_injective states)

/-- **A sealed string** that is damaged anywhere is not sealed. -/
theorem sealed_burst {body body' : Text}
    (burst : Burst (body ++ leBytes 4 (crc32c body).val) (body' ++ leBytes 4 (crc32c body').val)) :
    False := by
  have residue (body : Text) : crcState (body ++ leBytes 4 (crc32c body).val) =
      Checksum.absorbs crcTable 0 (leBytes 4 0xFFFFFFFF) := by
    rw [crcState, Checksum.absorbs_append, crc32c_val]
    exact Checksum.absorbs_sealed (crcState_lt body) _
  exact crcState_burst burst ((residue body).trans (residue body').symm)

/-! ## The wire -/

/-- A frame whose payload is damaged is refused. -/
theorem TcpSocket.readFrame_burst {s : TcpSocket} (up : s.connected = true) {type : Word 16}
    {payload payload' rest : Text} (burst : Burst payload payload')
    (few : payload.length + frameHeaderBytes ≤ maxFrameBytes)
    (arrives : s.incoming = (headerOf crc32c type payload).bytes ++ (payload' ++ rest)) :
    (Op.exec (readFrame crc32c maxFrameBytes) s).1 =
      .error (makeError .corrupt "frame checksum mismatch") := by
  have short : payload.length + frameHeaderBytes ≤ 4294967295 := le_trans few (by decide)
  have declared : (headerOf crc32c type payload).length.val = frameHeaderBytes + payload.length :=
    headerOf_length short
  have whole : (headerOf crc32c type payload).length.val = frameHeaderBytes + payload'.length := by
    rw [declared, burst.length]
  rw [(exec_readFrame up arrives whole).1]
  have differs : (crc32c payload' != (headerOf crc32c type payload).checksum) = true :=
    bne_iff_ne.mpr (crc32c_burst burst).symm
  have sized : (decide ((headerOf crc32c type payload).length.val < frameHeaderBytes) ||
      decide (maxFrameBytes < (headerOf crc32c type payload).length.val)) = false := by
    rw [declared]
    simp only [Bool.or_eq_false_iff, decide_eq_false_iff_not]
    omega
  unfold verdict
  rw [sized, differs]
  rfl

/-! ## The journal -/

/-- A journal in which the payload of a record is damaged is not opened. -/
theorem FileStore.openStore_burst {s : FileStore} {rs rs' : List FiledRecord} {r : FiledRecord}
    (holds : Holds crc32c s (rs ++ r :: rs')) {payload' tail : Text} (burst : Burst r.payload payload')
    {dir : Directory} (damaged : dir.journal = some (frames (frameOf crc32c) rs ++
      (journalHeader crc32c r.toJournalRecord ++ (payload' ++ tail)))) (found : FileStore) :
    openStore crc32c dir ≠ .ok found := by
  intro run
  obtain ⟨-, -, all, torn, spelled, -⟩ := openStore_eq_ok_iff.mp run
  rw [damaged] at spelled
  obtain ⟨chain, fits, -⟩ := (chain_append _ _ rs (r :: rs')).mp holds.chain
  obtain ⟨ss, behind⟩ := (readFrame_framing crc32c).spells_behind chain spelled
  have refused := @readFrame_header crc32c _ _ _ fits (payload' ++ tail)
  have enough : ¬ (payload' ++ tail).length < r.payload.length := by
    rw [List.length_append, burst.length]
    omega
  rw [if_neg enough, burst.length, List.take_left, if_pos (crc32c_burst burst).symm] at refused
  cases behind with
  | torn _ turn => exact absurd (refused.symm.trans turn) (by simp)
  | record _ turn => exact absurd (refused.symm.trans turn) (by simp)

/-! ## The snapshot -/

/-- A file that is read ends with its seal. -/
theorem readSnapshotBytes_sealed {digest : Text → Word 32} {bytes : Text} {found : SnapshotFile}
    (run : readSnapshotBytes digest (some bytes) = .ok found) :
    ∃ body, bytes = body ++ leBytes 4 (digest body).val := by
  unfold readSnapshotBytes at run
  simp only [readAll_some_bind, check_bind_eq_ok, refuse_eq_ok, decide_eq_false_iff_not,
    bne_eq_false_iff_eq] at run
  obtain ⟨-, -, -, -, -, -, exact, -, -, seal', -⟩ := run
  refine ⟨bytes.take (bytes.length - 4), ?_⟩
  have place : snapshotHeaderBytes + leValue ((bytes.drop 16).take 8) + 4 = bytes.length - 4 := by
    unfold snapshotFooterBytes at exact
    omega
  have four : (bytes.drop (bytes.length - 4)).length = 4 := by
    rw [List.length_drop]
    unfold snapshotHeaderBytes snapshotFooterBytes at exact
    omega
  rw [List.drop_drop, place, List.take_of_length_le (by omega)] at seal'
  have spelled := leBytes_leValue (bytes.drop (bytes.length - 4))
  rw [four, seal'] at spelled
  rw [spelled, List.take_append_drop]

/-- A snapshot that is damaged anywhere is not read. -/
theorem readSnapshotBytes_burst {s : SnapshotFile} {file : Text}
    (burst : Burst (snapshotBytes crc32c s) file) (found : SnapshotFile) :
    readSnapshotBytes crc32c (some file) ≠ .ok found := by
  intro run
  obtain ⟨body, rfl⟩ := readSnapshotBytes_sealed run
  exact sealed_burst burst

/-- **Damage is found**: with at most four adjacent bytes changed, no frame is received whose payload
they belong to, no store is opened on a journal with a record whose payload they belong to, and no
snapshot file is read, wherever they stand in it. -/
theorem bursts_refused :
    (∀ (s : TcpSocket) (type : Word 16) (payload payload' rest : Text), s.connected = true →
      Burst payload payload' → payload.length + frameHeaderBytes ≤ maxFrameBytes →
      s.incoming = (headerOf crc32c type payload).bytes ++ (payload' ++ rest) →
      (Op.exec (TcpSocket.readFrame crc32c maxFrameBytes) s).1 =
        .error (makeError .corrupt "frame checksum mismatch")) ∧
    (∀ (s : FileStore) (rs rs' : List FiledRecord) (r : FiledRecord) (payload' tail : Text)
      (dir : Directory), FileStore.Holds crc32c s (rs ++ r :: rs') → Burst r.payload payload' →
      dir.journal = some (frames (frameOf crc32c) rs ++
        (journalHeader crc32c r.toJournalRecord ++ (payload' ++ tail))) →
      ∀ found, FileStore.openStore crc32c dir ≠ .ok found) ∧
    ∀ (s : SnapshotFile) (file : Text), Burst (snapshotBytes crc32c s) file →
      ∀ found, readSnapshotBytes crc32c (some file) ≠ .ok found :=
  ⟨fun _ _ _ _ _ up burst few arrives => TcpSocket.readFrame_burst up burst few arrives,
    fun _ _ _ _ _ _ _ holds burst damaged => FileStore.openStore_burst holds burst damaged,
    fun _ _ burst => readSnapshotBytes_burst burst⟩

end Brf
