import Brf.CodecLaws
import Brf.Housekeeping
import Brf.Recovery
import Mathlib.Data.List.DropRight

/-!
# Reasons

What `sanitize_reason` leaves is a fixed point of it, because it changes no text that is clean
already.

* `sanitizeWithin` is `sanitize_reason` with its bound; the callers leave the bound at its default.

Results:
* `clean_sanitizeWithin`, `sanitizeWithin_of_clean` — its results are clean, and clean texts stay.
* `reasons_stable` — the reason of a transition is one text in the store, in the journal and after
  replay, and the decoder reads it.
-/

namespace Brf

open Brf.Lib

/-! ## Clean texts -/

/-- `sanitize_reason` with a bound. -/
def sanitizeWithin (text : Text) (maxBytes : Nat) : Text :=
  ((sanitizeBytes text maxBytes false).reverse.dropWhile (· = 46)).reverse

theorem sanitizeReason_eq (text : Text) :
    sanitizeReason text = sanitizeWithin text maxProvenanceReasonBytes :=
  rfl

/-- Two bytes that are not both a dot. -/
def Apart (a b : Byte) : Prop := ¬ (a = 46 ∧ b = 46)

/-- Printable ASCII of bounded length, no two dots in a row and none at the end. -/
structure CleanText (maxBytes : Nat) (text : Text) : Prop where
  short : text.length ≤ maxBytes
  printable : ∀ b ∈ text, 0x20 ≤ b.val ∧ b.val ≤ 0x7E
  apart : text.IsChain Apart
  ended : text.getLast? ≠ some 46

/-- What the loop writes for a byte. -/
def normalized (b : Byte) : Byte := if 0x20 ≤ b.val && b.val ≤ 0x7E then b else 46

theorem sanitizeBytes_cons (b : Byte) (rest : Text) (room : Nat) (lastWasDot : Bool) :
    sanitizeBytes (b :: rest) (room + 1) lastWasDot =
      if normalized b = 46 then
        if lastWasDot then sanitizeBytes rest (room + 1) true
        else normalized b :: sanitizeBytes rest room true
      else normalized b :: sanitizeBytes rest room false :=
  rfl

theorem normalized_printable (b : Byte) : 0x20 ≤ (normalized b).val ∧ (normalized b).val ≤ 0x7E := by
  unfold normalized
  by_cases plain : (decide (0x20 ≤ b.val) && decide (b.val ≤ 0x7E)) = true
  · rw [if_pos plain]
    simpa using plain
  · rw [if_neg plain]
    decide

theorem normalized_of_printable {b : Byte} (h : 0x20 ≤ b.val ∧ b.val ≤ 0x7E) : normalized b = b := by
  unfold normalized
  rw [if_pos (by simpa using h)]

/-- What the loop leaves may follow what it has written. -/
def Follows (lastWasDot : Bool) (text : Text) : Prop := lastWasDot = true → text.head? ≠ some 46

theorem follows_false (text : Text) : Follows false text := nofun

/-- The loop writes printable bytes and no second dot. -/
theorem sanitizeBytes_apart (text : Text) (room : Nat) (lastWasDot : Bool) :
    (∀ b ∈ sanitizeBytes text room lastWasDot, 0x20 ≤ b.val ∧ b.val ≤ 0x7E) ∧
      (sanitizeBytes text room lastWasDot).IsChain Apart ∧
        Follows lastWasDot (sanitizeBytes text room lastWasDot) := by
  induction text generalizing room lastWasDot with
  | nil => simp [sanitizeBytes, Follows]
  | cons b rest ih =>
    cases room with
    | zero => simp [sanitizeBytes, Follows]
    | succ room =>
      rw [sanitizeBytes_cons]
      have printable := normalized_printable b
      by_cases dot : normalized b = 46
      · rw [if_pos dot]
        cases lastWasDot with
        | true => exact ih (room + 1) true
        | false =>
          obtain ⟨plain, apart, follows⟩ := ih room true
          refine ⟨List.forall_mem_cons.mpr ⟨printable, plain⟩, ?_, follows_false _⟩
          exact List.isChain_cons.mpr ⟨fun y first both => follows rfl (both.2 ▸ first), apart⟩
      · rw [if_neg dot]
        obtain ⟨plain, apart, -⟩ := ih room false
        refine ⟨List.forall_mem_cons.mpr ⟨printable, plain⟩, ?_, ?_⟩
        · exact List.isChain_cons.mpr ⟨fun y _ both => dot both.1, apart⟩
        · intro _ first
          exact dot (Option.some.inj first)

/-- The loop copies what is clean. -/
theorem sanitizeBytes_of_clean {text : Text} {room : Nat} {lastWasDot : Bool}
    (short : text.length ≤ room) (printable : ∀ b ∈ text, 0x20 ≤ b.val ∧ b.val ≤ 0x7E)
    (apart : text.IsChain Apart) (follows : Follows lastWasDot text) :
    sanitizeBytes text room lastWasDot = text := by
  induction text generalizing room lastWasDot with
  | nil => rfl
  | cons b rest ih =>
    obtain ⟨plain, printable⟩ := List.forall_mem_cons.mp printable
    obtain ⟨next, apart⟩ := List.isChain_cons.mp apart
    cases room with
    | zero => simp at short
    | succ room =>
      have short : rest.length ≤ room := by simpa using short
      rw [sanitizeBytes_cons, normalized_of_printable plain]
      by_cases dot : b = 46
      · have fresh : lastWasDot = false := by
          cases lastWasDot with
          | false => rfl
          | true => exact absurd (congrArg some dot) (follows rfl)
        have clear : Follows true rest := fun _ first => next 46 first ⟨dot, rfl⟩
        rw [if_pos dot, fresh, ih short printable apart clear]
        rfl
      · rw [if_neg dot, ih short printable apart (follows_false rest)]

/-- **What is left** is clean. -/
theorem clean_sanitizeWithin (text : Text) (maxBytes : Nat) :
    CleanText maxBytes (sanitizeWithin text maxBytes) := by
  obtain ⟨printable, apart, -⟩ := sanitizeBytes_apart text maxBytes false
  have short := sanitizeBytes_length text maxBytes false
  have front : sanitizeWithin text maxBytes <+: sanitizeBytes text maxBytes false :=
    List.rdropWhile_prefix _ _
  refine ⟨le_trans front.length_le short, fun b mem => printable b (front.subset mem),
    apart.prefix front, ?_⟩
  intro last
  have some_text : sanitizeWithin text maxBytes ≠ [] := by
    intro none
    rw [none] at last
    cases last
  have other := List.rdropWhile_last_not (fun b : Byte => decide (b = 46)) _ some_text
  rw [List.getLast?_eq_some_getLast some_text, Option.some.injEq] at last
  exact other (decide_eq_true last)

/-- **A clean text** stays as it is. -/
theorem sanitizeWithin_of_clean {text : Text} {maxBytes : Nat} (h : CleanText maxBytes text) :
    sanitizeWithin text maxBytes = text := by
  unfold sanitizeWithin
  rw [sanitizeBytes_of_clean h.short h.printable h.apart (follows_false text)]
  refine List.rdropWhile_eq_self_iff.mpr fun some_text dot => h.ended ?_
  rw [List.getLast?_eq_some_getLast some_text, of_decide_eq_true dot]

theorem sanitizeWithin_again (text : Text) (maxBytes : Nat) :
    sanitizeWithin (sanitizeWithin text maxBytes) maxBytes = sanitizeWithin text maxBytes :=
  sanitizeWithin_of_clean (clean_sanitizeWithin text maxBytes)

namespace Coordinator

/-! ## Transitions -/

/-- The records and the journal stay as they are. -/
def KeepsRecords (c d : Coordinator) : Prop := d.records = c.records ∧ d.store = c.store

instance : IsPreorder Coordinator KeepsRecords where
  refl _ := ⟨rfl, rfl⟩
  trans _ _ _ h h' := ⟨h'.1.trans h.1, h'.2.trans h.2⟩

theorem keepsRecords_onIndex {α : Type} (m : CapacityIndex.Method α) :
    Op.Within KeepsRecords (onIndex m) :=
  Op.within_zoom (fun _ _ => ⟨rfl, rfl⟩) m

theorem keepsRecords_indexErase (r : ReservationRecord) : Op.Within KeepsRecords (indexErase r) :=
  Op.within_get_bind fun c => by
    split
    · exact keepsRecords_onIndex _ c
    · exact Op.within_pure () c

theorem keepsRecords_syncIndex (r : ReservationRecord) : Op.Within KeepsRecords (syncIndex r) := by
  have insert : Op.Within KeepsRecords (indexInsert r) := by
    unfold indexInsert
    split
    · exact Op.within_pure ()
    · exact keepsRecords_onIndex _
  refine Op.within_get_bind fun c => ?_
  dsimp only
  split
  · exact insert c
  · split
    · exact keepsRecords_indexErase r c
    · exact Op.within_pure () c

theorem keepsRecords_updateIndex (r : ReservationRecord) : Op.Within KeepsRecords (updateIndex r) :=
  Op.within_get_bind fun c => Op.within_bind (Op.within_when (keepsRecords_indexErase r))
    (fun _ => keepsRecords_syncIndex r) c

theorem syncQueues_keepsRecords (c : Coordinator) (r : ReservationRecord) :
    KeepsRecords c (c.syncQueues r) := by
  unfold syncQueues
  dsimp only
  split <;> exact ⟨rfl, rfl⟩

theorem countState_keepsRecords (c : Coordinator) (a b : ReservationState) :
    KeepsRecords c (c.countState a b) := by
  unfold countState
  split
  · exact ⟨rfl, rfl⟩
  · split <;> exact ⟨rfl, rfl⟩

theorem recallAttempt_keepsRecords (c : Coordinator) (attempt : Option AttemptMutation) :
    KeepsRecords c (c.recallAttempt attempt) := by
  cases attempt <;> exact ⟨rfl, rfl⟩

/-- A transition has become durable: the journal has its mutation, which the decoder reads, and the
reason is one clean text in the mutation, in the record, and in any store that replays it. -/
structure Reasoned (key : ReservationKey) (mutation : StateMutation) (c c' : Coordinator) : Prop where
  clean : CleanText maxProvenanceReasonBytes mutation.reason
  journalled : ∃ record : JournalRecord,
    c'.store.disk.journal = c.store.disk.journal ++ [record] ∧
      decodeRecord record.payload record.kind = .ok (.reservationState mutation)
  held : ∃ r, c'.records[key]? = some r ∧ r.stateReason = mutation.reason
  replayed : ∀ (x : Coordinator) (r : ReservationRecord), x.records[key]? = some r → r.key = key →
    Op.Ensures (applyReplay (.reservationState mutation)) x fun result x' => result = .ok () ∧
      ∃ r', x'.records[key]? = some r' ∧ r'.stateReason = mutation.reason

/-- Replay sanitizes the reason of a mutation, and stores it. -/
theorem ensures_replay_reason {x : Coordinator} {s : ReservationRecord} {mutation : StateMutation}
    (there : x.findRecord mutation.id mutation.generation = some s)
    (key : s.key = ⟨mutation.id, mutation.generation⟩) :
    Op.Ensures (applyReplay (.reservationState mutation)) x fun result x' => result = .ok () ∧
      ∃ r', x'.findRecord mutation.id mutation.generation = some r' ∧
        r'.stateReason = sanitizeReason mutation.reason := by
  unfold applyReplay replayState
  refine Op.ensures_get_bind ?_
  rw [there]
  dsimp only
  generalize recalled : (if 0 < mutation.recallEffectiveAt.val then
    { s with recallEffectiveAt := mutation.recallEffectiveAt } else s) = t
  have same : t.key = ⟨mutation.id, mutation.generation⟩ := by
    rw [← recalled, ← key]
    split <;> rfl
  let moved := t.withState mutation.toState mutation.at' mutation.reason mutation.provenance
  refine Op.ensures_set ⟨rfl, moved, ?_, rfl⟩
  unfold findRecord
  rw [(recallAttempt_keepsRecords _ _).1, (syncQueues_keepsRecords _ _).1, ← same]
  exact (Map.get_insert _ _ _ _).trans (if_pos rfl)

section

variable (r : ReservationRecord) (target : ReservationState) (now : Timestamp) (reason : Text)
  (context : RequestContext) (effect : Timestamp)

theorem transitionMutation_clean : CleanText maxProvenanceReasonBytes
    (transitionMutation r target now reason context effect).reason :=
  clean_sanitizeWithin reason maxProvenanceReasonBytes

/-- The decoder's bounds hold of every mutation that a transition journals. -/
theorem bounded_transitionMutation : Bounded (DurableRecord.reservationState
    (transitionMutation r target now reason context effect)) := by
  refine ⟨(transitionMutation_clean r target now reason context effect).short, ?_⟩
  exact Nat.zero_le _

theorem transitioned_reason (c : Coordinator) (sequence : DurableSequence) :
    (c.transitioned r target now reason context effect sequence).stateReason =
      (transitionMutation r target now reason context effect).reason := by
  unfold transitioned
  dsimp only
  split <;> rfl

/-- Memory keeps the reason, whatever becomes of the index. -/
theorem ensures_applyTransition_reason (sequence : DurableSequence) (c : Coordinator) :
    Op.Ensures (applyTransition r target now reason context effect sequence) c fun _ c' =>
      c'.store = c.store ∧ ∃ held, c'.records[r.key]? = some held ∧
        held.stateReason = (transitionMutation r target now reason context effect).reason := by
  let moved := c.transitioned r target now reason context effect sequence
  let stored := (c.countState r.state target).putRecord moved
  have key : moved.key = r.key :=
    (transitioned_kept c r target now reason context effect sequence).1
  have written : stored.store = c.store ∧ ∃ held, stored.records[r.key]? = some held ∧
      held.stateReason = (transitionMutation r target now reason context effect).reason := by
    refine ⟨(countState_keepsRecords c r.state target).2, moved, ?_,
      transitioned_reason r target now reason context effect c sequence⟩
    rw [← key]
    exact (Map.get_insert _ _ _ _).trans (if_pos rfl)
  have rest : Op.Ensures (do
      (if target = .recallPending then updateIndex moved else syncIndex moved)
      modify fun d => d.syncQueues moved
      pure moved : Method ReservationRecord) stored fun _ c' => KeepsRecords stored c' := by
    refine Op.within_bind ?_ (fun _ => Op.within_bind ?_ fun _ => Op.within_pure _) stored
    · split
      · exact keepsRecords_updateIndex _
      · exact keepsRecords_syncIndex _
    · exact Op.within_modify fun d => syncQueues_keepsRecords d moved
  refine Op.ensures_get_bind (Op.ensures_modify_bind (rest.mono fun _ c' kept => ?_))
  exact ⟨kept.2.trans written.1, kept.1 ▸ written.2⟩

/-- A transition leaves records and journal as they are, or makes its mutation durable. -/
theorem ensures_transition_reason (c : Coordinator) :
    Op.Ensures (transition r target now reason context effect) c fun result c' =>
      ((∃ e, result = .error e) ∧ c'.records = c.records ∧
        c'.store.disk.journal = c.store.disk.journal) ∨
      Reasoned r.key (transitionMutation r target now reason context effect) c c' := by
  let mutation := transitionMutation r target now reason context effect
  refine Op.ensures_bind ((ensures_appendRecord (.reservationState mutation) c).mono ?_)
  rintro (e | sequence) c₁ spec
  · obtain ⟨faults, rfl⟩ := spec
    exact .inl ⟨⟨e, rfl⟩, rfl, rfl⟩
  · obtain ⟨-, writable, faults, rfl⟩ := spec
    have fits : (encodeRecord (.reservationState mutation)).length < 4294967296 :=
      lt_of_le_of_lt writable.fits (by decide)
    have bounded := bounded_transitionMutation r target now reason context effect
    refine Op.ensures_bind ((ensures_applyTransition_reason r target now reason context effect
      sequence _).mono ?_)
    rintro result c' ⟨store, held⟩
    have reasoned : Reasoned r.key mutation c c' :=
      { clean := transitionMutation_clean r target now reason context effect
        journalled := ⟨_, congrArg (fun s : Store => s.disk.journal) store,
          (decodeRecord_encodeRecord fits).mpr bounded⟩
        held
        replayed := fun x s there key => (@ensures_replay_reason x s mutation there key).mono
          fun _ _ ⟨ok, r', stored, same⟩ =>
            ⟨ok, r', stored, same.trans (sanitizeWithin_again reason _)⟩ }
    cases result with
    | error e => exact .inr reasoned
    | ok moved => exact Op.ensures_pure (.inr reasoned)

end

end Coordinator

end Brf
