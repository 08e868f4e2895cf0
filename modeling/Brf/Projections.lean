import Brf.Lifecycle
import Brf.RecordLaws

/-!
# The projections of durable records

What each piece of a commit does in memory, as an equation on the whole state. A piece replaces one
record by its next form (`replaced`), or registers a new one (`installed`), and makes the index
follow; on a consistent index none of them fails.

Results: `ensures_applyTransition`, `ensures_setGrace`, `ensures_applyMark`,
`ensures_applyCompanion`, `ensures_supersede`, `ensures_installRecord` and
`ensures_installSuccessor`.
-/

namespace Brf

open Brf.Lib

namespace Coordinator

/-! ## The shapes of the updates -/

/-- The state with a record in its next form and the index `y`. -/
def replaced (c : Coordinator) (r next : ReservationRecord) (y : CapacityIndex) : Coordinator :=
  (((c.countState r.state next.state).putRecord next).syncQueues next).withIndex y

/-- The state with a registered record and the index `y`. -/
def installed (c : Coordinator) (r : ReservationRecord) (y : CapacityIndex) : Coordinator :=
  ((c.registerRecord r).syncQueues r).withIndex y

/-- Queues are all that `sync_queues_locked` changes. -/
theorem syncQueues_shape (c : Coordinator) (r : ReservationRecord) :
    ∃ activationQueue expiryQueue recallQueue,
      c.syncQueues r = { c with activationQueue, expiryQueue, recallQueue } := by
  unfold syncQueues
  split
  · exact ⟨_, _, _, rfl⟩
  · exact ⟨_, _, _, rfl⟩

/-- Counters are all that `count_state` changes. -/
theorem countState_shape (c : Coordinator) (old new : ReservationState) :
    ∃ liveCount historyCount, c.countState old new = { c with liveCount, historyCount } := by
  unfold countState
  split
  · exact ⟨_, _, rfl⟩
  · split
    · exact ⟨_, _, rfl⟩
    · exact ⟨c.liveCount, c.historyCount, rfl⟩

theorem countState_self (c : Coordinator) (s : ReservationState) : c.countState s s = c := by
  unfold countState
  cases isTerminal s <;> rfl

/-- Attempts are all that `remember_attempt_locked` changes. -/
theorem rememberAttempt_shape (c : Coordinator) (attempt : AttemptRecord) :
    ∃ attempts attemptOrder, c.rememberAttempt attempt = { c with attempts, attemptOrder } :=
  ⟨_, _, rfl⟩

theorem retain_shape (c : Coordinator) (retained : Bool) (attempt : AttemptRecord) :
    ∃ attempts attemptOrder,
      (if retained then c.rememberAttempt attempt else c) = { c with attempts, attemptOrder } := by
  cases retained
  · exact ⟨c.attempts, c.attemptOrder, rfl⟩
  · exact rememberAttempt_shape c attempt

theorem replaced_shape (c : Coordinator) (r next : ReservationRecord) (y : CapacityIndex) :
    ∃ activationQueue expiryQueue recallQueue liveCount historyCount,
      c.replaced r next y =
        { c with
          records := c.records.insert next.key next, index := y
          activationQueue, expiryQueue, recallQueue, liveCount, historyCount } := by
  obtain ⟨l, h, counted⟩ := countState_shape c r.state next.state
  obtain ⟨a, e, q, queued⟩ :=
    syncQueues_shape ((c.countState r.state next.state).putRecord next) next
  refine ⟨a, e, q, l, h, ?_⟩
  unfold replaced
  rw [queued, counted]
  rfl

theorem installed_shape (c : Coordinator) (r : ReservationRecord) (y : CapacityIndex) :
    ∃ activationQueue expiryQueue recallQueue,
      c.installed r y = { c.registerRecord r with
        index := y, activationQueue, expiryQueue, recallQueue } := by
  obtain ⟨a, e, q, queued⟩ := syncQueues_shape (c.registerRecord r) r
  refine ⟨a, e, q, ?_⟩
  unfold installed
  rw [queued]
  rfl

@[simp] theorem replaced_records (c : Coordinator) (r next : ReservationRecord)
    (y : CapacityIndex) : (c.replaced r next y).records = c.records.insert next.key next := by
  obtain ⟨a, e, q, l, h, shape⟩ := replaced_shape c r next y
  rw [shape]

@[simp] theorem installed_records (c : Coordinator) (r : ReservationRecord) (y : CapacityIndex) :
    (c.installed r y).records = c.records.insert r.key r := by
  obtain ⟨a, e, q, shape⟩ := installed_shape c r y
  rw [shape]
  rfl

/-- Without a change of state the counters stay. -/
theorem replaced_sameState {c : Coordinator} {r next : ReservationRecord} {y : CapacityIndex}
    (same : next.state = r.state) :
    c.replaced r next y = ((c.putRecord next).syncQueues next).withIndex y := by
  unfold replaced
  rw [same, countState_self]

/-- The queues follow the record whatever the index is. -/
theorem syncQueues_index (c : Coordinator) (r : ReservationRecord) (y : CapacityIndex) :
    (c.withIndex y).syncQueues r = (c.syncQueues r).withIndex y := by
  unfold syncQueues withIndex
  split <;> rfl

theorem countState_fields (c : Coordinator) (old new : ReservationState) (r : ReservationRecord) :
    ((c.countState old new).putRecord r).index = c.index ∧
      ((c.countState old new).putRecord r).ledger = c.ledger := by
  obtain ⟨l, h, counted⟩ := countState_shape c old new
  rw [counted]
  exact ⟨rfl, rfl⟩

theorem indexable_congr {c c' : Coordinator} (ledger : c'.ledger = c.ledger)
    (r : ReservationRecord) : c'.indexable r = c.indexable r := by
  unfold indexable
  rw [ledger]

theorem indexHolds_congr {c c' : Coordinator} (index : c'.index = c.index)
    (r : ReservationRecord) : c'.indexHolds r = c.indexHolds r := by
  unfold indexHolds
  rw [index]

theorem synced_congr {c c' : Coordinator} (index : c'.index = c.index)
    (ledger : c'.ledger = c.ledger) {r : ReservationRecord} {y : CapacityIndex} :
    Synced c' r y ↔ Synced c r y := by
  unfold Synced Replaced
  rw [indexable_congr ledger, indexHolds_congr index, index]

theorem updated_congr {c c' : Coordinator} (index : c'.index = c.index)
    (ledger : c'.ledger = c.ledger) {r : ReservationRecord} {y : CapacityIndex} :
    Updated c' r y ↔ Updated c r y := by
  unfold Updated Replaced
  rw [indexable_congr ledger, indexHolds_congr index, index]

/-! ## One record changes -/

/-- How the index follows a transition: entries of a recalled record are made anew. -/
def Follows (c : Coordinator) (next : ReservationRecord) (y : CapacityIndex) : Prop :=
  if next.state = .recallPending then Updated c next y else Synced c next y

theorem transitioned_state (c : Coordinator) (r : ReservationRecord) (target : ReservationState)
    (at' : Timestamp) (reason : Text) (context : RequestContext) (effect : Timestamp)
    (sequence : DurableSequence) :
    (c.transitioned r target at' reason context effect sequence).state = target := rfl

theorem transitioned_kept (c : Coordinator) (r : ReservationRecord) (target : ReservationState)
    (at' : Timestamp) (reason : Text) (context : RequestContext) (effect : Timestamp)
    (sequence : DurableSequence) :
    (c.transitioned r target at' reason context effect sequence).key = r.key ∧
    (c.transitioned r target at' reason context effect sequence).terms = r.terms ∧
    (c.transitioned r target at' reason context effect sequence).authority = r.authority := by
  unfold transitioned
  dsimp only
  split <;> exact ⟨rfl, rfl, rfl⟩

theorem Sound.of_kept {r next : ReservationRecord} (h : r.Sound) (terms : next.terms = r.terms)
    (authority : next.authority = r.authority) : next.Sound :=
  ⟨by rw [terms]; exact h.amount, by rw [authority]; exact h.named,
    by rw [authority]; exact h.distinct⟩

/-- The memory part of a transition. -/
theorem ensures_applyTransition {c : Coordinator} (h : c.index.Wf) {r : ReservationRecord}
    (sound : r.Sound) (target : ReservationState) (at' : Timestamp) (reason : Text)
    (context : RequestContext) (effect : Timestamp) (sequence : DurableSequence) :
    Op.Ensures (applyTransition r target at' reason context effect sequence) c (fun res c' =>
      res = .ok (c.transitioned r target at' reason context effect sequence) ∧
      ∃ y, c' = c.replaced r (c.transitioned r target at' reason context effect sequence) y ∧
        y.Wf ∧ Follows c (c.transitioned r target at' reason context effect sequence) y) := by
  unfold applyTransition
  apply Op.ensures_get_bind
  apply Op.ensures_modify_bind
  generalize hmoved : c.transitioned r target at' reason context effect sequence = moved
  have state : moved.state = target := by rw [← hmoved]; rfl
  obtain ⟨-, terms, authority⟩ :=
    hmoved ▸ transitioned_kept c r target at' reason context effect sequence
  have msound : moved.Sound := Sound.of_kept sound terms authority
  obtain ⟨index, ledger⟩ := countState_fields c r.state target moved
  have wf : ((c.countState r.state target).putRecord moved).index.Wf := by rw [index]; exact h
  apply Op.ensures_bind
  have finish : ∀ y, y.Wf → Follows c moved y → Op.Ensures (do
      modify fun c => c.syncQueues moved
      pure moved : Method ReservationRecord)
      (((c.countState r.state target).putRecord moved).withIndex y) (fun res c' =>
        res = .ok moved ∧ ∃ y, c' = c.replaced r moved y ∧ y.Wf ∧ Follows c moved y) := by
    intro y ywf follows
    apply Op.ensures_modify_bind
    apply Op.ensures_pure
    refine ⟨rfl, y, ?_, ywf, follows⟩
    rw [syncQueues_index]
    unfold replaced
    rw [state]
  refine Op.ensures_ite (fun recalled => ?_) fun other => ?_
  · refine (ensures_updateIndex wf msound).mono ?_
    rintro res c' ⟨rfl, y, rfl, ywf, updated⟩
    refine finish y ywf ?_
    unfold Follows
    rw [if_pos (state.trans recalled)]
    exact (updated_congr index ledger).mp updated
  · refine (ensures_syncIndex wf msound).mono ?_
    rintro res c' ⟨rfl, y, rfl, ywf, synced⟩
    refine finish y ywf ?_
    unfold Follows
    rw [if_neg (state ▸ other)]
    exact (synced_congr index ledger).mp synced

/-- The record after its grace has been set. -/
theorem ensures_setGrace {c : Coordinator} (h : c.index.Wf) {r : ReservationRecord}
    (sound : r.Sound) (grace : Duration) :
    Op.Ensures (setGrace r grace) c (fun res c' => res = .ok (r.graced grace) ∧
      ∃ y, c' = c.replaced r (r.graced grace) y ∧ y.Wf ∧
        Updated c (r.graced grace) y) := by
  unfold setGrace
  apply Op.ensures_modify_bind
  apply Op.ensures_bind
  have gsound : (r.graced grace).Sound := Sound.of_kept sound rfl rfl
  have wf : (c.putRecord (r.graced grace)).index.Wf := h
  refine (ensures_updateIndex wf gsound).mono ?_
  rintro res c' ⟨rfl, y, rfl, ywf, updated⟩
  apply Op.ensures_modify_bind
  apply Op.ensures_pure
  refine ⟨rfl, y, ?_, ywf, (updated_congr rfl rfl).mp updated⟩
  rw [syncQueues_index]
  exact (replaced_sameState rfl).symm

/-- The memory part of a change of applicability. -/
theorem ensures_applyMark {c : Coordinator} (h : c.index.Wf) {r : ReservationRecord}
    (sound : r.Sound) (applicability : Applicability) (reason : ApplicabilityReason)
    (at' : Timestamp) (sequence : DurableSequence) :
    Op.Ensures (applyMark r applicability reason at' sequence) c (fun res c' =>
      res = .ok (r.marked applicability reason at' sequence) ∧
      ∃ y, c' = c.replaced r (r.marked applicability reason at' sequence) y ∧ y.Wf ∧
        Synced c (r.marked applicability reason at' sequence) y) := by
  unfold applyMark
  apply Op.ensures_modify_bind
  obtain ⟨a, e, q, queued⟩ := syncQueues_shape (c.putRecord (r.marked applicability reason at'
    sequence)) (r.marked applicability reason at' sequence)
  have index : ((c.putRecord (r.marked applicability reason at' sequence)).syncQueues
      (r.marked applicability reason at' sequence)).index = c.index := by rw [queued]; rfl
  have ledger : ((c.putRecord (r.marked applicability reason at' sequence)).syncQueues
      (r.marked applicability reason at' sequence)).ledger = c.ledger := by rw [queued]; rfl
  have msound : (r.marked applicability reason at' sequence).Sound := Sound.of_kept sound rfl rfl
  apply Op.ensures_bind
  refine (ensures_syncIndex (by rw [index]; exact h) msound).mono ?_
  rintro res c' ⟨rfl, y, rfl, ywf, synced⟩
  apply Op.ensures_pure
  exact ⟨rfl, y, (replaced_sameState rfl).symm, ywf, (synced_congr index ledger).mp synced⟩

/-- A companion transition in memory, of a record that is still there. -/
theorem ensures_applyCompanion {c : Coordinator} (h : c.index.Wf) (companion : StateMutation)
    (sound : ∀ r, c.findRecord companion.id companion.generation = some r → r.Sound) :
    Op.Ensures (applyCompanion companion) c (fun res c' => res = .ok () ∧
      match c.findRecord companion.id companion.generation with
      | none => c' = c
      | some r => ∃ y, c' = c.replaced r (companion.applyTo r) y ∧ y.Wf ∧
          Synced c (companion.applyTo r) y) := by
  unfold applyCompanion
  apply Op.ensures_get_bind
  cases found : c.findRecord companion.id companion.generation with
  | none => exact ⟨rfl, rfl⟩
  | some r =>
    apply Op.ensures_set_bind
    obtain ⟨index, ledger⟩ := countState_fields c r.state companion.toState (companion.applyTo r)
    have csound : (companion.applyTo r).Sound := Sound.of_kept (sound r found) rfl rfl
    apply Op.ensures_bind
    refine (ensures_syncIndex (by rw [index]; exact h) csound).mono ?_
    rintro res c' ⟨rfl, y, rfl, ywf, synced⟩
    apply Op.ensures_modify
    refine ⟨rfl, y, ?_, ywf, (synced_congr index ledger).mp synced⟩
    rw [syncQueues_index]
    rfl

theorem erased_congr {c c' : Coordinator} (index : c'.index = c.index) {r : ReservationRecord}
    {y : CapacityIndex} : Erased c' r y ↔ Erased c r y := by
  unfold Erased
  rw [index]

/-- A superseded generation in memory. -/
theorem ensures_supersede {c : Coordinator} (h : c.index.Wf) (p : AmendPlan)
    (provenance : Provenance) (previous : ReservationRecord) :
    Op.Ensures (supersede p provenance previous) c (fun res c' => res = .ok () ∧
      match c.findRecord previous.id previous.generation with
      | none => c' = c
      | some r => ∃ y, c' = c.replaced r (p.supersededForm provenance r) y ∧ y.Wf ∧
          Erased c (p.supersededForm provenance r) y) := by
  unfold supersede
  apply Op.ensures_get_bind
  cases found : c.findRecord previous.id previous.generation with
  | none => exact ⟨rfl, rfl⟩
  | some r =>
    apply Op.ensures_set_bind
    obtain ⟨index, -⟩ := countState_fields c r.state .superseded (p.supersededForm provenance r)
    apply Op.ensures_bind
    refine (ensures_indexErase (by rw [index]; exact h) (p.supersededForm provenance r)).mono ?_
    rintro res c' ⟨rfl, y, rfl, ywf, erased⟩
    apply Op.ensures_modify
    refine ⟨rfl, y, ?_, ywf, (erased_congr index).mp erased⟩
    rw [syncQueues_index]
    rfl

/-! ## One record enters -/

/-- A committed record in memory. -/
theorem ensures_installRecord {c : Coordinator} (h : c.index.Wf) {r : ReservationRecord}
    (sound : r.Sound) :
    Op.Ensures (installRecord r) c (fun res c' => res = .ok () ∧
      ∃ y, c' = c.installed r y ∧ y.Wf ∧ Synced c r y) := by
  unfold installRecord
  apply Op.ensures_modify_bind
  apply Op.ensures_bind
  refine (ensures_syncIndex (c := c.registerRecord r) h sound).mono ?_
  rintro res c' ⟨rfl, y, rfl, ywf, synced⟩
  apply Op.ensures_modify
  refine ⟨rfl, y, ?_, ywf, (synced_congr rfl rfl).mp synced⟩
  rw [syncQueues_index]
  rfl

/-- A successor in memory. -/
theorem ensures_installSuccessor {c : Coordinator} (h : c.index.Wf) {r : ReservationRecord}
    (sound : r.Sound) :
    Op.Ensures (installSuccessor r) c (fun res c' => res = .ok () ∧
      ∃ y, c' = c.installed r y ∧ y.Wf ∧ Updated c r y) := by
  unfold installSuccessor
  apply Op.ensures_modify_bind
  apply Op.ensures_bind
  refine (ensures_updateIndex (c := c.registerRecord r) h sound).mono ?_
  rintro res c' ⟨rfl, y, rfl, ywf, updated⟩
  apply Op.ensures_modify
  refine ⟨rfl, y, ?_, ywf, (updated_congr rfl rfl).mp updated⟩
  rw [syncQueues_index]
  rfl

end Coordinator

end Brf
