import Brf.Counters
import Brf.Housekeeping
import Brf.Queues

/-!
# Reconciliation at an instant

What `reconcile_locked` has done when it succeeds.

* `Restated r s`: `s` is `r` in another state, with the bookkeeping of the change.
* `settledState now`: the state that a turn of the loop leaves a record in, and
  `reconciledState now` the one that the whole of reconciliation does, which looks at those that
  are due.
* `Ticked now c r s d`: one turn. The index follows it as `Refiled` has it.
* `Reconciled now c d`: the whole of reconciliation, on records, counters, holds and index.

Results: `reconciledState_later`, `exec_reconcile_again` and `reconciled_of_run`.
-/

namespace Brf

open Brf.Lib
open ReservationRecord (Owns)

/-! ## One record -/

/-- What counts of a hold: whether it is released, and when it would be. -/
def HoldRecord.standing (h : HoldRecord) : Bool × Timestamp := (h.released, h.expiresAt)

namespace ReservationRecord

variable {r s t : ReservationRecord} {now later : Timestamp}

/-- The same generation in another state, with the bookkeeping of the change. -/
def Restated (r s : ReservationRecord) : Prop :=
  s = { r with
    state := s.state
    terminatedAt := s.terminatedAt
    stateChangedAt := s.stateChangedAt
    stateReason := s.stateReason
    lastProvenance := s.lastProvenance
    sequence := s.sequence }

namespace Restated

theorem refl (r : ReservationRecord) : Restated r r := rfl

theorem trans (h : Restated r s) (h' : Restated s t) : Restated r t := by
  unfold Restated at h h'
  rw [h] at h'
  exact h'

theorem key (h : Restated r s) : s.key = r.key := by
  rw [h]
  rfl

theorem id (h : Restated r s) : s.id = r.id := congrArg ReservationKey.id h.key

theorem generation (h : Restated r s) : s.generation = r.generation :=
  congrArg ReservationKey.generation h.key

theorem terms (h : Restated r s) : s.terms = r.terms := by rw [h]

theorem authority (h : Restated r s) : s.authority = r.authority := by rw [h]

theorem applicability (h : Restated r s) : s.applicability = r.applicability := by rw [h]

theorem recallEffectiveAt (h : Restated r s) : s.recallEffectiveAt = r.recallEffectiveAt := by rw [h]

theorem consumingInterval (h : Restated r s) : s.consumingInterval = r.consumingInterval := by
  rw [h]
  rfl

/-- Two restatements in one state differ in the bookkeeping alone. -/
theorem agree (h : Restated r s) (h' : Restated r t) (same : s.state = t.state) : Restated s t := by
  unfold Restated at h h' ⊢
  rw [h, h', same]

end Restated

/-- A record that consumes at all does so within its terms' interval. -/
theorem consumingInterval_within (nonempty : r.consumingInterval.empty = false) :
    r.consumingInterval.stop ≤ r.terms.interval.stop := by
  unfold Interval.empty at nonempty
  rw [consumingInterval_start] at nonempty
  simp only [Bool.not_eq_false', decide_eq_true_eq, consumingInterval] at nonempty ⊢
  split_ifs at nonempty ⊢
  all_goals first
    | exact le_rfl
    | exact absurd nonempty (lt_irrefl _)
    | exact le_of_not_gt ‹_›

/-- The instants of the record that end it have come. -/
def Ends (r : ReservationRecord) (now : Timestamp) : Prop :=
  (r.state = .recallPending ∧ 0 < r.recallEffectiveAt.val ∧ r.recallEffectiveAt ≤ now) ∨
    r.consumingInterval.empty = true ∨ r.consumingInterval.stop ≤ now

/-- The state that a turn of reconciliation leaves the record in. -/
def settledState (r : ReservationRecord) (now : Timestamp) : ReservationState :=
  if r.state = .recallPending && 0 < r.recallEffectiveAt.val && r.recallEffectiveAt ≤ now then
    .revoked
  else if r.consumes && (r.consumingInterval.empty || r.consumingInterval.stop ≤ now) then
    if r.state = .recallPending then .revoked else .expired
  else if r.state = .committed && commitsAsActive now r.terms.interval then .active
  else r.state

/-- What makes a record due. -/
theorem due_iff : r.Due now ↔ r.consumes = true ∧
    ((r.state = .committed ∧ r.terms.interval.start ≤ now) ∨
      (r.consumingInterval.empty = false ∧ r.consumingInterval.stop ≤ now) ∨
      (r.state = .recallPending ∧ 0 < r.recallEffectiveAt.val ∧ r.recallEffectiveAt ≤ now)) := by
  unfold Due activationAt expiryAt recallAt
  cases consumes : r.consumes with
  | false => simp
  | true =>
    simp only [Bool.true_and, true_and, decide_eq_true_eq, Bool.and_eq_true, Bool.not_eq_true']
    constructor
    · rintro ⟨t, own | own | own, past⟩
      · split at own
        · rename_i committed
          obtain rfl := Option.some.inj own
          exact .inl ⟨committed, past⟩
        · cases own
      · split at own
        · rename_i nonempty
          obtain rfl := Option.some.inj own
          exact .inr (.inl ⟨nonempty, past⟩)
        · cases own
      · split at own
        · rename_i pending
          obtain rfl := Option.some.inj own
          exact .inr (.inr ⟨pending.1, pending.2, past⟩)
        · cases own
    · rintro (⟨committed, past⟩ | ⟨nonempty, past⟩ | ⟨pending, after, past⟩)
      · exact ⟨_, .inl (if_pos committed), past⟩
      · exact ⟨_, .inr (.inl (if_pos nonempty)), past⟩
      · exact ⟨_, .inr (.inr (if_pos ⟨pending, after⟩)), past⟩

instance : Decidable (r.Due now) := decidable_of_iff _ due_iff.symm

theorem Due.consumes (h : r.Due now) : r.consumes = true := (due_iff.mp h).1

theorem Due.live (h : r.Due now) : isTerminal r.state = false :=
  not_terminal_of_consumes (Bool.and_eq_true_iff.mp h.consumes).1

/-- What is due stays due. -/
theorem Due.mono (h : r.Due now) (le : now ≤ later) : r.Due later := by
  obtain ⟨t, own, past⟩ := h
  exact ⟨t, own, past.trans le⟩

theorem Ends.mono (h : r.Ends now) (le : now ≤ later) : r.Ends later := by
  rcases h with ⟨pending, after, past⟩ | empty | past
  · exact .inl ⟨pending, after, past.trans le⟩
  · exact .inr (.inl empty)
  · exact .inr (.inr (past.trans le))

/-- A record that its instants end is revoked if it was recalled, and expires otherwise. -/
theorem settledState_of_ends (consumes : r.consumes = true) (ends : r.Ends now) :
    r.settledState now = if r.state = .recallPending then .revoked else .expired := by
  unfold settledState
  by_cases effect : (r.state = .recallPending && 0 < r.recallEffectiveAt.val &&
      r.recallEffectiveAt ≤ now) = true
  · have pending : r.state = .recallPending := by
      simp only [Bool.and_eq_true, decide_eq_true_eq] at effect
      exact effect.1.1
    rw [if_pos effect, if_pos pending]
  · have finished : (r.consumingInterval.empty || decide (r.consumingInterval.stop ≤ now)) = true := by
      rcases ends with recalled | empty | past
      · refine absurd ?_ effect
        simpa [and_assoc] using recalled
      · rw [empty, Bool.true_or]
      · rw [decide_eq_true past, Bool.or_true]
    rw [if_neg effect, consumes, finished, Bool.and_self, if_pos rfl]

/-- A due record that they do not end is a committed one whose interval opens. -/
theorem settledState_of_opens (due : r.Due now) (opens : ¬ r.Ends now) :
    r.state = .committed ∧ commitsAsActive now r.terms.interval = true ∧
      r.settledState now = .active := by
  obtain ⟨consumes, reasons⟩ := due_iff.mp due
  have effect : ¬ (r.state = .recallPending && 0 < r.recallEffectiveAt.val &&
      r.recallEffectiveAt ≤ now) = true := by
    intro effect
    simp only [Bool.and_eq_true, decide_eq_true_eq] at effect
    exact opens (.inl ⟨effect.1.1, effect.1.2, effect.2⟩)
  have running : (r.consumingInterval.empty || decide (r.consumingInterval.stop ≤ now)) = false := by
    by_contra finished
    rw [Bool.not_eq_false, Bool.or_eq_true, decide_eq_true_eq] at finished
    exact opens (.inr finished)
  obtain ⟨committed, started⟩ : r.state = .committed ∧ r.terms.interval.start ≤ now := by
    rcases reasons with own | ⟨-, past⟩ | recalled
    · exact own
    · exact absurd (.inr (.inr past)) opens
    · exact absurd (.inl recalled) opens
  have active : commitsAsActive now r.terms.interval = true := by
    rw [Bool.or_eq_false_iff, decide_eq_false_iff_not, not_le] at running
    have within := running.2.trans_le (consumingInterval_within running.1)
    simp [commitsAsActive, started, within]
  refine ⟨committed, active, ?_⟩
  unfold settledState
  rw [if_neg effect, running, Bool.and_false, if_neg (by decide), active, if_pos (by simp [committed])]

/-- The state that reconciliation at `now` leaves the record in. -/
def reconciledState (r : ReservationRecord) (now : Timestamp) : ReservationState :=
  if r.Due now then r.settledState now else r.state

/-- What reconciliation looks at is the same in a restatement in the same state. -/
theorem Restated.same (h : Restated r s) (now : Timestamp) (same : s.state = r.state) :
    (s.consumes = r.consumes) ∧ (s.Due now ↔ r.Due now) ∧ (s.Ends now ↔ r.Ends now) := by
  have consumes : s.consumes = r.consumes := by
    unfold consumes
    rw [same, h.applicability]
  refine ⟨consumes, ?_, ?_⟩
  · rw [due_iff, due_iff, consumes, same, h.terms, h.consumingInterval, h.recallEffectiveAt]
  · unfold Ends
    rw [same, h.consumingInterval, h.recallEffectiveAt]

/-- A record whose interval has opened, and what ends it. -/
theorem Restated.opened (h : Restated r s) (now : Timestamp) (committed : r.state = .committed)
    (active : s.state = .active) : s.consumes = r.consumes ∧ (s.Ends now ↔ r.Ends now) := by
  constructor
  · unfold consumes
    rw [active, committed, h.applicability]
    rfl
  · unfold Ends
    rw [active, committed, h.consumingInterval]
    simp

theorem settledState_terminal (consumes : r.consumes = true) (ends : r.Ends now) :
    isTerminal (r.settledState now) = true := by
  rw [settledState_of_ends consumes ends]
  split <;> rfl

theorem not_due_of_terminal (terminal : isTerminal r.state = true) : ¬ r.Due now := fun due => by
  have live := due.live
  rw [terminal] at live
  cases live

/-- An active record is due only where it ends. -/
theorem due_active (active : r.state = .active) :
    r.Due now ↔ r.consumes = true ∧ r.consumingInterval.empty = false ∧
      r.consumingInterval.stop ≤ now := by
  rw [due_iff, active]
  simp

/-- Nothing is due once reconciliation is finished. -/
theorem Restated.not_due (h : Restated r s) (settled : s.state = r.reconciledState now) :
    ¬ s.Due now := by
  unfold reconciledState at settled
  by_cases due : r.Due now
  · rw [if_pos due] at settled
    by_cases ends : r.Ends now
    · refine not_due_of_terminal ?_
      rw [settled]
      exact settledState_terminal due.consumes ends
    · obtain ⟨committed, -, active⟩ := settledState_of_opens due ends
      rw [due_active (settled.trans active)]
      rintro ⟨-, -, past⟩
      rw [h.consumingInterval] at past
      exact ends (.inr (.inr past))
  · rw [if_neg due] at settled
    rwa [(h.same _ settled).2.1]

/-- **Reconciling earlier makes no difference** to the state of a record. -/
theorem Restated.reconciledState_later (h : Restated r s) (settled : s.state = r.reconciledState now)
    (le : now ≤ later) : s.reconciledState later = r.reconciledState later := by
  unfold reconciledState at settled ⊢
  by_cases due : r.Due now
  · rw [if_pos due] at settled
    rw [if_pos (due.mono le)]
    by_cases ends : r.Ends now
    · -- it has ended already, and would have ended alike
      have terminal : isTerminal s.state = true := settled ▸ settledState_terminal due.consumes ends
      rw [if_neg (not_due_of_terminal terminal), settled, settledState_of_ends due.consumes ends,
        settledState_of_ends due.consumes (ends.mono le)]
    · -- its interval has opened, and it may have ended since
      obtain ⟨committed, -, active⟩ := settledState_of_opens due ends
      have running := settled.trans active
      obtain ⟨consumes, same⟩ := h.opened later committed running
      have nonempty : r.consumingInterval.empty = false := by
        by_contra empty
        exact ends (.inr (.inl (by simpa using empty)))
      by_cases finished : r.Ends later
      · have past : r.consumingInterval.stop ≤ later := by
          rcases finished with ⟨pending, -⟩ | empty | past
          · rw [committed] at pending
            cases pending
          · rw [nonempty] at empty
            cases empty
          · exact past
        have due' : s.Due later := by
          rw [due_active running, consumes, h.consumingInterval]
          exact ⟨due.consumes, nonempty, past⟩
        rw [if_pos due', settledState_of_ends due'.consumes (same.mpr finished), running,
          settledState_of_ends due.consumes finished, committed]
        rfl
      · obtain ⟨-, -, active'⟩ := settledState_of_opens (due.mono le) finished
        have not_due : ¬ s.Due later := by
          rw [due_active running, h.consumingInterval]
          rintro ⟨-, -, past⟩
          exact finished (.inr (.inr past))
        rw [if_neg not_due, running, active']
  · rw [if_neg due] at settled
    obtain ⟨consumes, sameDue, sameEnds⟩ := h.same later settled
    by_cases due' : r.Due later
    · rw [if_pos due', if_pos (sameDue.mpr due')]
      by_cases ends : r.Ends later
      · rw [settledState_of_ends due'.consumes ends,
          settledState_of_ends (sameDue.mpr due').consumes (sameEnds.mpr ends), settled]
      · rw [(settledState_of_opens due' ends).2.2,
          (settledState_of_opens (sameDue.mpr due') (fun no => ends (sameEnds.mp no))).2.2]
    · rw [if_neg due', if_neg fun no => due' (sameDue.mp no), settled]

end ReservationRecord

namespace Coordinator

open ReservationRecord (Restated)

variable {c d : Coordinator} {r s : ReservationRecord} {now : Timestamp}

/-! ## Counters -/

/-- How many stored records have not ended. -/
def unended (c : Coordinator) : Nat := c.records.values.countP fun r => !isTerminal r.state

/-- Records have ended, and the counters have followed. -/
structure Tallied (c d : Coordinator) : Prop where
  fewer : d.unended ≤ c.unended
  live : d.liveCount = c.liveCount - (c.unended - d.unended)
  history : d.historyCount = c.historyCount + (c.unended - d.unended)

theorem Tallied.refl (c : Coordinator) : Tallied c c := ⟨le_rfl, by simp, by simp⟩

theorem Tallied.trans {a b c : Coordinator} (h : Tallied a b) (h' : Tallied b c) : Tallied a c := by
  have first := h.fewer
  have second := h'.fewer
  refine ⟨second.trans first, ?_, ?_⟩
  · rw [h'.live, h.live]
    omega
  · rw [h'.history, h.history]
    omega

/-- A live record changes its state. -/
theorem tallied_moved (stored : c.records[s.key]? = some r) (live : isTerminal r.state = false)
    (records : d.records = c.records.insert s.key s)
    (counted : d.liveCount = (c.countState r.state s.state).liveCount ∧
      d.historyCount = (c.countState r.state s.state).historyCount) : Tallied c d := by
  obtain ⟨liveCount, historyCount⟩ := counted
  have before : c.unended = _ := countP_stored stored fun r => !isTerminal r.state
  have after : d.unended = (Map.values (c.records.erase s.key)).countP
      (fun r => !isTerminal r.state) + if !isTerminal s.state then 1 else 0 := by
    unfold unended
    rw [records]
    exact countP_insert c.records s _
  rw [live] at before
  unfold countState at liveCount historyCount
  rw [live] at liveCount historyCount
  cases new : isTerminal s.state with
  | false =>
    simp only [new, Bool.not_false, Bool.and_false, Bool.false_eq_true, if_false, Bool.false_and,
      if_true] at before after liveCount historyCount
    have same : d.unended = c.unended := after.trans before.symm
    exact ⟨le_of_eq same, by rw [liveCount, same]; simp, by rw [historyCount, same]; simp⟩
  | true =>
    simp only [new, Bool.not_false, Bool.not_true, Bool.and_true, Bool.false_eq_true, if_false,
      if_true] at before after liveCount historyCount
    have less : c.unended - d.unended = 1 := by omega
    exact ⟨by omega, by rw [liveCount, less], by rw [historyCount, less]⟩

/-! ## One transition -/

/-- `d` is `c` with `r` restated as `s`, and the index made to agree. -/
structure Stepped (c : Coordinator) (r s : ReservationRecord) (d : Coordinator) : Prop where
  restated : Restated r s
  records : ∀ k, d.records[k]? = if k = r.key then some s else c.records[k]?
  tallied : Tallied c d
  holds : d.holds = c.holds
  ledger : d.ledger = c.ledger
  config : d.config = c.config
  index : Synced c s d.index

/-- Nothing that reconciliation is about depends on the statistics. -/
theorem Stepped.counted (h : Stepped c r s d) (stats : Stats) : Stepped c r s { d with stats } :=
  ⟨h.restated, h.records, ⟨h.tallied.fewer, h.tallied.live, h.tallied.history⟩, h.holds, h.ledger,
    h.config, h.index⟩

theorem restated_transitioned (c : Coordinator) (r : ReservationRecord) (target : ReservationState)
    (now : Timestamp) (reason : Text) (context : RequestContext) (sequence : DurableSequence) :
    Restated r (c.transitioned r target now reason context 0 sequence) := rfl

/-- A record that is replaced in a state that differs from `c` in the journal alone. -/
theorem stepped_replaced {b : Coordinator} {y : CapacityIndex}
    (stored : c.records[r.key]? = some r) (live : isTerminal r.state = false)
    (restated : Restated r s) (synced : Synced c s y) (left : d = b.replaced r s y)
    (records : b.records = c.records) (liveCount : b.liveCount = c.liveCount)
    (historyCount : b.historyCount = c.historyCount) (holds : b.holds = c.holds)
    (ledger : b.ledger = c.ledger) (config : b.config = c.config) : Stepped c r s d := by
  have there : c.records[s.key]? = some r := by
    rw [restated.key]
    exact stored
  obtain ⟨a, e, q, queued⟩ := syncQueues_shape ((b.countState r.state s.state).putRecord s) s
  unfold replaced at left
  rw [queued] at left
  obtain ⟨l, n, counted⟩ := countState_shape b r.state s.state
  have counts : (b.countState r.state s.state).liveCount = (c.countState r.state s.state).liveCount ∧
      (b.countState r.state s.state).historyCount =
        (c.countState r.state s.state).historyCount := by
    unfold countState
    rw [liveCount, historyCount]
    split
    · exact ⟨rfl, rfl⟩
    · split
      · exact ⟨rfl, rfl⟩
      · exact ⟨liveCount, historyCount⟩
  have inserted : d.records = c.records.insert s.key s := by
    rw [left, counted, ← records]
    rfl
  refine ⟨restated, fun k => ?_, ?_, ?_, ?_, ?_, ?_⟩
  · rw [inserted, Map.get_insert, restated.key]
    congr
  · refine tallied_moved there live inserted ?_
    rw [left]
    exact counts
  · rw [left, counted]
    exact holds
  · rw [left, counted]
    exact ledger
  · rw [left, counted]
    exact config
  · rw [left]
    exact synced

/-- A transition of the clock that succeeds. -/
theorem stepped_transition (idle : Idle c) (stored : c.records[r.key]? = some r)
    (live : isTerminal r.state = false) {target : ReservationState}
    (clocked : target ≠ .recallPending) {reason : Text} {context : RequestContext}
    {attempt : AttemptRecord}
    (run : (transition r target now reason context 0).exec c = (.ok (s, attempt), d)) :
    s.state = target ∧ Stepped c r s d ∧ Idle d := by
  have spec := ensures_transition idle stored target now reason context 0
  unfold Op.Ensures at spec
  rw [run] at spec
  obtain ⟨rfl, -, c₁, appended, rfl⟩ := spec
  have idle₁ := idle.appended appended
  obtain ⟨faults, rfl⟩ := appended.shape
  have sound := idle.consistent.sound _ _ stored
  obtain ⟨-, y, left, wf, follows⟩ := ensures_applyTransition idle₁.consistent.index sound target now
    reason context 0 (c.store.lastSequence + 1)
  have restated := restated_transitioned c r target now reason context (c.store.lastSequence + 1)
  have synced : Synced c (c.transitioned r target now reason context 0 (c.store.lastSequence + 1))
      y := by
    unfold Follows at follows
    rw [if_neg (by exact clocked)] at follows
    exact (synced_congr rfl rfl).mp follows
  refine ⟨rfl, stepped_replaced stored live restated synced left rfl rfl rfl rfl rfl
    rfl, ?_⟩
  rw [left]
  exact idle_moved idle₁ (Sound.of_kept sound restated.terms restated.authority) wf
    (follows.tracks idle₁.consistent.index)

/-! ## One turn -/

/-- How the index follows a record that consumes: what is indexed stays, and what may be indexed is,
unless the two agree already. -/
def Refiled (c : Coordinator) (s : ReservationRecord) (e : IndexEntry) : Prop :=
  if c.indexable s = c.indexHolds s then c.index.Has e else c.indexable s = true ∧ e ∈ s.entries

/-- How the index follows a record depends on the entries of its own generation alone. -/
theorem refiled_congr {b : Coordinator} (wf : b.index.Wf) (wf' : c.index.Wf)
    (ledger : b.ledger = c.ledger)
    (same : ∀ e, Owns s.id e → e.holderGeneration = s.generation → (b.index.Has e ↔ c.index.Has e))
    {e : IndexEntry} (here : b.index.Has e ↔ c.index.Has e) : b.Refiled s e ↔ c.Refiled s e := by
  have held : b.indexHolds s = c.indexHolds s := by
    rw [Bool.eq_iff_iff, indexHolds_iff wf, indexHolds_iff wf']
    constructor
    · rintro ⟨f, has, owned, generation⟩
      exact ⟨f, (same f owned generation).mp has, owned, generation⟩
    · rintro ⟨f, has, owned, generation⟩
      exact ⟨f, (same f owned generation).mpr has, owned, generation⟩
  unfold Refiled
  rw [indexable_congr ledger, held, here]

/-- It depends on the record only up to the bookkeeping. -/
theorem refiled_agree {t : ReservationRecord} (restated : Restated s t) (state : t.state = s.state)
    (e : IndexEntry) : c.Refiled s e ↔ c.Refiled t e := by
  have indexable : c.indexable t = c.indexable s := by
    unfold indexable
    rw [(restated.same 0 state).1, restated.applicability, restated.consumingInterval,
      restated.authority]
  have held : c.indexHolds t = c.indexHolds s := by
    unfold indexHolds
    rw [restated.id, restated.generation]
  have entries : t.entries = s.entries := by
    unfold ReservationRecord.entries
    rw [restated.authority]
    refine List.map_congr_left fun ref _ => ?_
    unfold recordEntry
    rw [restated.id, restated.generation, restated.consumingInterval, restated.terms, state]
  unfold Refiled
  rw [indexable, held, entries]

/-- The index has entries of no other generation of the identity. -/
def Lone (c : Coordinator) (r : ReservationRecord) : Prop :=
  ∀ e, c.index.Has e → Owns r.id e → e.holderGeneration = r.generation

/-- `d` is `c` after the turn of the record `r`, which is now `s`. -/
structure Ticked (now : Timestamp) (c : Coordinator) (r s : ReservationRecord) (d : Coordinator) :
    Prop where
  restated : Restated r s
  settled : s.state = r.settledState now
  records : ∀ k, d.records[k]? = if k = r.key then some s else c.records[k]?
  tallied : Tallied c d
  holds : d.holds = c.holds
  ledger : d.ledger = c.ledger
  elsewhere : ∀ e, ¬ Owns r.id e → (d.index.Has e ↔ c.index.Has e)
  own : Lone c r → ∀ e, Owns r.id e → (d.index.Has e ↔ s.consumes = true ∧ c.Refiled s e)

/-- Entries of other holders stay where they are. -/
theorem Stepped.elsewhere (h : Stepped c r s d) {e : IndexEntry} (other : ¬ Owns r.id e) :
    d.index.Has e ↔ c.index.Has e := by
  have synced := h.index
  unfold Synced at synced
  split at synced
  · exact synced e
  · rw [synced e, h.restated.id]
    constructor
    · rintro (⟨-, mem⟩ | ⟨has, -⟩)
      · have own := ReservationRecord.owns_of_mem_entries mem
        rw [h.restated.id] at own
        exact absurd own other
      · exact has
    · exact fun has => .inr ⟨has, other⟩

/-- The entries of a record that goes on consuming. -/
theorem Stepped.refiled (h : Stepped c r s d) {e : IndexEntry} (own : Owns r.id e) :
    d.index.Has e ↔ c.Refiled s e := by
  have synced := h.index
  unfold Synced at synced
  unfold Refiled
  split at synced
  · rename_i same
    rw [if_pos same]
    exact synced e
  · rename_i differ
    rw [if_neg differ, synced e, h.restated.id]
    simp [own]

/-- A record that has ended leaves no entries. -/
theorem Stepped.cleared (h : Stepped c r s d) (wf : c.index.Wf) (ended : s.consumes = false)
    (lone : Lone c r) {e : IndexEntry} (own : Owns r.id e) : ¬ d.index.Has e := by
  have unindexable : c.indexable s = false := by
    unfold indexable
    rw [ended]
    rfl
  rw [h.refiled own]
  unfold Refiled
  rw [unindexable]
  split
  · rename_i free
    intro has
    have held : c.indexHolds s = true := by
      rw [indexHolds_iff wf]
      refine ⟨e, has, ?_, ?_⟩
      · rw [h.restated.id]
        exact own
      · rw [h.restated.generation]
        exact lone e has own
    rw [← free] at held
    cases held
  · rintro ⟨no, -⟩
    cases no

/-- A turn that ends the record at once. -/
theorem Stepped.ended (h : Stepped c r s d) (wf : c.index.Wf) (settled : s.state = r.settledState now)
    (terminal : isTerminal s.state = true) : Ticked now c r s d :=
  { restated := h.restated
    settled
    records := h.records
    tallied := h.tallied
    holds := h.holds
    ledger := h.ledger
    elsewhere := fun _ other => h.elsewhere other
    own := fun lone e own => by
      have ended := terminal_not_consumes terminal
      have gone := h.cleared wf ended lone own
      simp [gone, ended] }

/-- A turn that opens the interval of the record. -/
theorem Stepped.activated (h : Stepped c r s d) (settled : s.state = r.settledState now)
    (consumes : s.consumes = true) : Ticked now c r s d :=
  { restated := h.restated
    settled
    records := h.records
    tallied := h.tallied
    holds := h.holds
    ledger := h.ledger
    elsewhere := fun _ other => h.elsewhere other
    own := fun _ e own => by
      rw [h.refiled own]
      simp [consumes] }

/-- A turn that opens the interval of the record and then ends it. -/
theorem Stepped.then_ended {b : Coordinator} {t : ReservationRecord} (h : Stepped c r t b)
    (h' : Stepped b t s d) (wf : b.index.Wf) (settled : s.state = r.settledState now)
    (terminal : isTerminal s.state = true) : Ticked now c r s d := by
  have key := h.restated.key
  have id := h.restated.id
  refine
    { restated := h.restated.trans h'.restated
      settled
      records := fun k => ?_
      tallied := h.tallied.trans h'.tallied
      holds := h'.holds.trans h.holds
      ledger := h'.ledger.trans h.ledger
      elsewhere := fun e other => (h'.elsewhere (id.symm ▸ other)).trans (h.elsewhere other)
      own := fun lone e own => ?_ }
  · rw [h'.records, h.records, key]
    split
    · rfl
    · rfl
  · have ended := terminal_not_consumes terminal
    have lone' : Lone b t := by
      intro f has owned
      rw [id] at owned
      rw [h.restated.generation]
      rw [h.refiled owned] at has
      unfold Refiled at has
      split at has
      · exact lone f has owned
      · obtain ⟨ref, -, rfl⟩ := ReservationRecord.mem_entries.mp has.2
        exact h.restated.generation
    have gone := h'.cleared wf ended lone' (id.symm ▸ own)
    simp [gone, ended]

/-- A revocation or an expiry has been counted. -/
theorem Ticked.counted (h : Ticked now c r s d) (stats : Stats) : Ticked now c r s { d with stats } :=
  ⟨h.restated, h.settled, h.records, ⟨h.tallied.fewer, h.tallied.live, h.tallied.history⟩, h.holds,
    h.ledger, h.elsewhere, h.own⟩

/-- A transition of the clock and the count behind it. -/
theorem stepped_counted (idle : Idle c) (stored : c.records[r.key]? = some r)
    (live : isTerminal r.state = false) {target : ReservationState}
    (clocked : target ≠ .recallPending) {reason : Text} {context : RequestContext}
    {count : Coordinator → Coordinator} (counts : ∀ c, ∃ stats, count c = { c with stats })
    (run : (do
      discard <| transition r target now reason context 0
      modify count : Method Unit).exec c = (.ok (), d)) : ∃ s, s.state = target ∧ Stepped c r s d := by
  obtain ⟨⟨⟩, e, first, rest⟩ := Op.exec_bind_ok run
  obtain ⟨⟨s, attempt⟩, done⟩ := Op.exec_discard_ok first
  obtain ⟨state, stepped, -⟩ := stepped_transition idle stored live clocked done
  obtain ⟨stats, counted⟩ := counts e
  rw [Op.exec_modify, counted] at rest
  obtain ⟨-, rfl⟩ := Prod.mk.inj rest
  exact ⟨s, state, stepped.counted stats⟩

/-- The end of a record that its interval ends. -/
theorem stepped_endDue {context : RequestContext} (idle : Idle c)
    (stored : c.records[r.key]? = some r) (consumes : r.consumes = true)
    (ends : r.consumingInterval.empty = true ∨ r.consumingInterval.stop ≤ now)
    (done : (endDue now context r).exec c = (.ok (), d)) : ∃ s, Stepped c r s d ∧
      s.state = if r.state = .recallPending then .revoked else .expired := by
  have finished : (r.consumingInterval.empty || decide (r.consumingInterval.stop ≤ now)) = true := by
    simpa using ends
  have live : isTerminal r.state = false :=
    not_terminal_of_consumes (Bool.and_eq_true_iff.mp consumes).1
  unfold endDue at done
  rw [consumes, finished, Bool.and_self, if_pos rfl] at done
  by_cases pending : r.state = .recallPending
  · rw [if_pos pending] at done ⊢
    obtain ⟨s, state, stepped⟩ := stepped_counted idle stored live (by decide)
      countRevocation_stats done
    exact ⟨s, stepped, state⟩
  · rw [if_neg pending] at done ⊢
    obtain ⟨s, state, stepped⟩ := stepped_counted idle stored live (by decide)
      countExpiry_stats done
    exact ⟨s, stepped, state⟩

/-- **A turn** of the loop on a record that is due. -/
theorem ticked_reconcileTurn {context : RequestContext} (idle : Idle c) {key : ReservationKey} (stored : c.records[key]? = some r) (due : r.Due now)
    (done : (reconcileTurn now context key).exec c = (.ok (), d)) : ∃ s, Ticked now c r s d := by
  have named : r.key = key := idle.consistent.keyed key r stored
  have there : c.records[r.key]? = some r := named ▸ stored
  have wf := idle.consistent.index
  unfold reconcileTurn at done
  rw [Op.exec_get_bind, stored] at done
  dsimp only at done
  by_cases effect : (r.state = .recallPending && 0 < r.recallEffectiveAt.val &&
      r.recallEffectiveAt ≤ now) = true
  · -- the recall takes effect
    rw [if_pos effect] at done
    obtain ⟨s, state, stepped⟩ := stepped_counted idle there due.live (by decide)
      countRevocation_stats done
    refine ⟨s, stepped.ended wf ?_ (by rw [state]; rfl)⟩
    unfold ReservationRecord.settledState
    rw [if_pos effect, state]
  · rw [if_neg effect] at done
    have recalled : ¬ (r.state = .recallPending ∧ 0 < r.recallEffectiveAt.val ∧
        r.recallEffectiveAt ≤ now) := by
      rintro ⟨pending, after, past⟩
      exact effect (by simp [pending, after, past])
    obtain ⟨u, e, opened, rest⟩ := Op.exec_bind_ok done
    unfold activateDue at opened
    by_cases opens : (r.state = .committed && commitsAsActive now r.terms.interval) = true
    · -- its interval opens, and may be finished as well
      rw [if_pos opens] at opened
      have committed : r.state = .committed :=
        of_decide_eq_true (Bool.and_eq_true_iff.mp opens).1
      obtain ⟨⟨v, attempt⟩, e', moved, same⟩ := Op.exec_bind_ok opened
      obtain ⟨rfl, rfl⟩ : v = u ∧ e' = e := by
        obtain ⟨first, second⟩ := Prod.mk.inj same
        exact ⟨Except.ok.inj first, second⟩
      obtain ⟨active, stepped, idle'⟩ := stepped_transition idle there due.live (by decide) moved
      obtain ⟨consumes, sameEnds⟩ := stepped.restated.opened now committed active
      have there' : e'.records[v.key]? = some v := by
        rw [stepped.records, if_pos stepped.restated.key]
      by_cases ends : r.Ends now
      · have finished := ends.resolve_left recalled
        rw [← stepped.restated.consumingInterval] at finished
        obtain ⟨s, ended, state⟩ := stepped_endDue idle' there' (consumes.trans due.consumes) finished rest
        have settled : s.state = r.settledState now := by
          rw [state, active, ReservationRecord.settledState_of_ends due.consumes ends, committed]
          rfl
        refine ⟨s, stepped.then_ended ended idle'.consistent.index settled ?_⟩
        rw [settled]
        exact ReservationRecord.settledState_terminal due.consumes ends
      · have running : (v.consumes && (v.consumingInterval.empty ||
            decide (v.consumingInterval.stop ≤ now))) = false := by
          by_contra finished
          rw [Bool.not_eq_false, Bool.and_eq_true, Bool.or_eq_true, decide_eq_true_eq] at finished
          exact ends (sameEnds.mp (.inr finished.2))
        unfold endDue at rest
        rw [running, if_neg (by decide)] at rest
        obtain ⟨-, rfl⟩ := Prod.mk.inj rest
        refine ⟨v, stepped.activated ?_ (consumes.trans due.consumes)⟩
        rw [active, (ReservationRecord.settledState_of_opens due ends).2.2]
    · -- it has ended, since nothing else makes it due
      rw [if_neg opens] at opened
      obtain ⟨same, rfl⟩ := Prod.mk.inj opened
      obtain rfl := Except.ok.inj same
      have ends : r.Ends now := by
        by_contra running
        obtain ⟨committed, active, -⟩ := ReservationRecord.settledState_of_opens due running
        exact opens (by simp [committed, active])
      obtain ⟨s, stepped, state⟩ := stepped_endDue idle there due.consumes
        (ends.resolve_left recalled) rest
      rw [← ReservationRecord.settledState_of_ends due.consumes ends] at state
      refine ⟨s, stepped.ended wf state ?_⟩
      rw [state]
      exact ReservationRecord.settledState_terminal due.consumes ends

/-! ## The loop -/

/-- Turns one after the other, of records that are due. -/
inductive Ticks (now : Timestamp) : List ReservationKey → Coordinator → Coordinator → Prop
  | nil (c : Coordinator) : Ticks now [] c c
  | cons {key : ReservationKey} {keys : List ReservationKey} {b c d : Coordinator}
      {r s : ReservationRecord} : Idle c → Idle b → r.key = key → c.records[key]? = some r →
        Ticked now c r s b → Ticks now keys b d → Ticks now (key :: keys) c d

/-- The loop of `reconcile_locked`. -/
theorem ticks_each {context : RequestContext} (own : context.attempt.isNil = true) :
    ∀ {keys : List ReservationKey} {c d : Coordinator}, Idle c → keys.Nodup →
      (∀ key ∈ keys, ∃ r, c.records[key]? = some r ∧ r.Due now) →
      (Op.each (reconcileTurn now context) keys).exec c = (.ok (), d) → Ticks now keys c d ∧ Idle d
  | [], c, d, idle, _, _, run => by
    obtain ⟨-, rfl⟩ := Prod.mk.inj run
    exact ⟨.nil c, idle⟩
  | key :: keys, c, d, idle, nodup, due, run => by
    obtain ⟨⟨⟩, b, first, rest⟩ := Op.exec_bind_ok run
    obtain ⟨r, stored, own_due⟩ := due key List.mem_cons_self
    obtain ⟨s, ticked⟩ := ticked_reconcileTurn idle stored own_due first
    have named := idle.consistent.keyed key r stored
    obtain ⟨fresh, nodup'⟩ := List.nodup_cons.mp nodup
    have within := within_reconcileTurn (P := Clocked) (fun _ h => h) now own key c
    unfold Op.Ensures at within
    rw [first] at within
    have idle' := (within idle).1
    have due' : ∀ k ∈ keys, ∃ r, b.records[k]? = some r ∧ r.Due now := by
      intro k mem
      obtain ⟨t, there, dueT⟩ := due k (List.mem_cons_of_mem _ mem)
      refine ⟨t, ?_, dueT⟩
      rw [ticked.records, if_neg]
      · exact there
      · rintro rfl
        exact fresh (named ▸ mem)
    obtain ⟨ticks, last⟩ := ticks_each own idle' nodup' due' rest
    exact ⟨.cons idle idle' named stored ticked ticks, last⟩

namespace Ticks

variable {keys : List ReservationKey}

theorem tallied (h : Ticks now keys c d) : Tallied c d := by
  induction h with
  | nil c => exact .refl c
  | cons _ _ _ _ ticked _ ih => exact ticked.tallied.trans ih

theorem holds (h : Ticks now keys c d) : d.holds = c.holds := by
  induction h with
  | nil c => rfl
  | cons _ _ _ _ ticked _ ih => exact ih.trans ticked.holds

theorem ledger (h : Ticks now keys c d) : d.ledger = c.ledger := by
  induction h with
  | nil c => rfl
  | cons _ _ _ _ ticked _ ih => exact ih.trans ticked.ledger

/-- What the loop does not look at stays. -/
theorem other (h : Ticks now keys c d) {k : ReservationKey} (not : k ∉ keys) :
    d.records[k]? = c.records[k]? := by
  induction h with
  | nil c => rfl
  | cons _ _ named _ ticked _ ih =>
    rw [List.mem_cons, not_or] at not
    rw [ih not.2, ticked.records, if_neg]
    rw [named]
    exact not.1

/-- What the loop looks at is settled. -/
theorem record (h : Ticks now keys c d) (nodup : keys.Nodup) {k : ReservationKey} (mem : k ∈ keys) :
    ∃ r s, c.records[k]? = some r ∧ d.records[k]? = some s ∧ Restated r s ∧
      s.state = r.settledState now := by
  induction h with
  | nil c => exact absurd mem List.not_mem_nil
  | @cons key keys b c d r s _ _ named stored ticked rest ih =>
    obtain ⟨fresh, nodup'⟩ := List.nodup_cons.mp nodup
    by_cases same : k = key
    · subst same
      refine ⟨r, s, stored, ?_, ticked.restated, ticked.settled⟩
      rw [rest.other fresh, ticked.records, if_pos named.symm]
    · have behind := (List.mem_cons.mp mem).resolve_left same
      obtain ⟨r', s', there, there', restated, settled⟩ := ih nodup' behind
      rw [ticked.records, if_neg (by rw [named]; exact same)] at there
      exact ⟨r', s', there, there', restated, settled⟩

/-- Entries of other holders stay. -/
theorem elsewhere (h : Ticks now keys c d) {e : IndexEntry}
    (other : ∀ key ∈ keys, ¬ Owns key.id e) : d.index.Has e ↔ c.index.Has e := by
  induction h with
  | nil c => rfl
  | cons _ _ named _ ticked _ ih =>
    obtain ⟨head, tail⟩ := List.forall_mem_cons.mp other
    rw [ih tail, ticked.elsewhere]
    rw [← named] at head
    exact head

/-- Entries of a record that the loop looks at, where no two of them are of one identity. -/
theorem own (h : Ticks now keys c d) (apart : keys.Pairwise fun k l => k.id ≠ l.id)
    (lone : ∀ key ∈ keys, ∀ r, c.records[key]? = some r → Lone c r) {key : ReservationKey}
    (mem : key ∈ keys) {e : IndexEntry} (owned : Owns key.id e) :
    d.index.Has e ↔ ∃ s, d.records[key]? = some s ∧ s.consumes = true ∧ c.Refiled s e := by
  induction h with
  | nil c => exact absurd mem List.not_mem_nil
  | @cons head keys b c d r s idle idle' named stored ticked rest ih =>
    obtain ⟨others, apart'⟩ := List.pairwise_cons.mp apart
    have id : r.id = head.id := congrArg ReservationKey.id named
    rcases List.mem_cons.mp mem with rfl | behind
    · have untouched : ∀ k ∈ keys, ¬ Owns k.id e := fun k mem' owned' =>
        others k mem' (owned.2.symm.trans owned'.2)
      have fresh : key ∉ keys := fun mem' => others key mem' rfl
      rw [rest.elsewhere untouched,
        ticked.own (lone _ List.mem_cons_self r stored) e (id.symm ▸ owned), rest.other fresh,
        ticked.records, if_pos named.symm]
      simp
    · have differ := others key behind
      have lone' : ∀ k ∈ keys, ∀ t, b.records[k]? = some t → Lone b t := by
        intro k mem' t there f has owns
        have apartK := others k mem'
        have unlike : k ≠ r.key := fun same => apartK (by rw [same, named])
        rw [ticked.records, if_neg unlike] at there
        have keyed := idle.consistent.keyed k t there
        have idT : t.id = k.id := congrArg ReservationKey.id keyed
        rw [ticked.elsewhere f fun no => apartK (by rw [← id, ← no.2, owns.2, idT])] at has
        exact lone k (List.mem_cons_of_mem _ mem') t there f has owns
      rw [ih apart' lone' behind]
      refine exists_congr fun t => and_congr_right fun there => and_congr_right fun _ => ?_
      obtain ⟨r', t', before, after, restated, -⟩ :=
        rest.record (apart'.imp fun ne same => ne (by rw [same])) behind
      obtain rfl := Option.some.inj (there.symm.trans after)
      have idT : t.id = key.id :=
        congrArg ReservationKey.id (restated.key.trans (idle'.consistent.keyed key r' before))
      have untouched : ∀ f, Owns t.id f → (b.index.Has f ↔ c.index.Has f) := by
        refine fun f owns => ticked.elsewhere f fun no => ?_
        exact differ (by rw [← id, ← no.2, owns.2, idT])
      exact refiled_congr idle'.consistent.index idle.consistent.index ticked.ledger
        (fun f owns _ => untouched f owns) (untouched e (idT.symm ▸ owned))

end Ticks

/-! ## Holds -/

/-- `release_hold_locked` on a hold that is there. -/
theorem ensures_releaseHold (wf : c.index.Wf) (now : Timestamp) {id : HoldId} {hold : HoldRecord}
    (there : c.holds[id]? = some hold) (held : hold.released = false) (reason : Text) :
    Op.Ensures (releaseHold now id reason) c fun _ d => ∃ y,
      d = { c with
        holds := c.holds.insert id (hold.release now (sanitizeReason reason))
        index := y } ∧ y.Wf ∧ ∀ e, y.Has e ↔ c.index.Has e ∧ ¬ (e.kind = .hold ∧ e.id = id) := by
  unfold releaseHold
  apply Op.ensures_get_bind
  rw [there]
  dsimp only
  rw [held, if_neg (by decide)]
  apply Op.ensures_modify_bind
  apply Op.ensures_get_bind
  refine Op.ensures_ite (fun _ => ?_) fun free => ?_
  · apply Op.ensures_discard
    apply Op.ensures_attempt
    refine (ensures_onIndex (c := { c with
      holds := c.holds.insert id (hold.release now (sanitizeReason reason)) })
        (CapacityIndex.ensures_eraseAll wf .hold id)).mono ?_
    rintro res d ⟨y, rfl, ywf, has, -⟩
    exact ⟨y, rfl, ywf, has⟩
  · refine ⟨c.index, rfl, wf, fun e => ⟨fun has => ⟨has, fun owned => free ?_⟩, And.left⟩⟩
    exact (CapacityIndex.Wf.contains_iff wf).mpr ⟨e, has, owned⟩

/-- The holds of a list have been released, and their entries have left the index. -/
def Freed (ids : List HoldId) (c d : Coordinator) : Prop :=
  ∃ holds y, d = { c with holds, index := y } ∧ y.Wf ∧
    (∀ id, (holds[id]?).map HoldRecord.standing =
      (c.holds[id]?).map fun h => (h.released || decide (id ∈ ids), h.expiresAt)) ∧
    ∀ e, y.Has e ↔ c.index.Has e ∧ ¬ (e.kind = .hold ∧ e.id ∈ ids)

/-- The loop that releases holds. -/
theorem freed_each {reason : Text} : ∀ {entries : List (HoldId × HoldRecord)} {c d : Coordinator},
    c.index.Wf → (entries.map Prod.fst).Nodup →
      (∀ entry ∈ entries, ∃ h, c.holds[entry.1]? = some h ∧ h.released = false) →
      (Op.each (fun entry => releaseHold now entry.1 reason) entries).exec c = (.ok (), d) →
      Freed (entries.map Prod.fst) c d
  | [], c, d, wf, _, _, run => by
    obtain ⟨-, rfl⟩ := Prod.mk.inj run
    refine ⟨c.holds, c.index, rfl, wf, fun id => ?_, fun e => by simp⟩
    congr 1
    funext h
    simp [HoldRecord.standing]
  | entry :: entries, c, d, wf, nodup, held, run => by
    obtain ⟨⟨⟩, b, first, rest⟩ := Op.exec_bind_ok run
    rw [List.map_cons, List.nodup_cons] at nodup
    obtain ⟨fresh, nodup'⟩ := nodup
    obtain ⟨hold, there, own⟩ := held entry List.mem_cons_self
    have released := ensures_releaseHold wf now there own reason
    unfold Op.Ensures at released
    rw [first] at released
    obtain ⟨y, rfl, ywf, has⟩ := released
    have held' : ∀ other ∈ entries, ∃ h, (c.holds.insert entry.1
        (hold.release now (sanitizeReason reason)))[other.1]? = some h ∧ h.released = false := by
      intro other mem
      obtain ⟨h, there', own'⟩ := held other (List.mem_cons_of_mem _ mem)
      refine ⟨h, ?_, own'⟩
      rw [Map.get_insert_ne, there']
      exact fun same => fresh (same ▸ List.mem_map_of_mem mem)
    obtain ⟨holds, z, rfl, zwf, standing, has'⟩ := freed_each (c := { c with
      holds := c.holds.insert entry.1 (hold.release now (sanitizeReason reason))
      index := y }) ywf nodup' held' rest
    refine ⟨holds, z, rfl, zwf, fun id => ?_, fun e => ?_⟩
    · rw [standing id]
      change ((c.holds.insert entry.1 _)[id]?).map _ = _
      rw [Map.get_insert]
      by_cases same : id = entry.1
      · subst same
        rw [if_pos rfl, there]
        simp [HoldRecord.release]
      · rw [if_neg same]
        have mem : id ∈ (entry :: entries).map Prod.fst ↔ id ∈ entries.map Prod.fst := by
          rw [List.map_cons, List.mem_cons]
          exact ⟨fun h => h.resolve_left same, .inr⟩
        rw [decide_eq_decide.mpr mem]
    · rw [has' e]
      change (y.Has e ∧ _) ↔ _
      rw [has e]
      simp only [List.map_cons, List.mem_cons, not_and, not_or]
      tauto

/-! ## Reconciliation -/

/-- No two generations of one identity consume capacity. -/
def Single (c : Coordinator) : Prop :=
  ∀ (k l : ReservationKey) (r s : ReservationRecord), c.records[k]? = some r →
    c.records[l]? = some s → r.consumes = true → s.consumes = true → k.id = l.id → k = l

/-- `d` is `c` after reconciliation at `now`. -/
structure Reconciled (now : Timestamp) (c d : Coordinator) : Prop where
  stored : ∀ (k : ReservationKey) (r : ReservationRecord), c.records[k]? = some r →
    ∃ s, d.records[k]? = some s ∧ Restated r s ∧ s.state = r.reconciledState now
  absent : ∀ k : ReservationKey, c.records[k]? = none → d.records[k]? = none
  tallied : Tallied c d
  ledger : d.ledger = c.ledger
  holds : ∀ id : HoldId, (d.holds[id]?).map HoldRecord.standing =
    (c.holds[id]?).map fun h => (h.released || decide (h.expiresAt ≤ now), h.expiresAt)
  freed : ∀ e, e.kind = .hold → (d.index.Has e ↔ c.index.Has e ∧
    ¬ ∃ h, c.holds[e.id]? = some h ∧ h.released = false ∧ h.expiresAt ≤ now)
  followed : Single c → ∀ e, e.kind = .reservation → (d.index.Has e ↔ ∃ r s,
    c.records[(⟨e.id, e.holderGeneration⟩ : ReservationKey)]? = some r ∧
    d.records[(⟨e.id, e.holderGeneration⟩ : ReservationKey)]? = some s ∧ s.consumes = true ∧
    if r.Due now then c.Refiled s e else c.index.Has e)

/-- What was stored before reconciliation, of what is stored after it. -/
theorem Reconciled.before (h : Reconciled now c d) {k : ReservationKey}
    (there : d.records[k]? = some s) : ∃ r, c.records[k]? = some r ∧ Restated r s ∧
      s.state = r.reconciledState now := by
  cases stored : c.records[k]? with
  | none =>
    rw [h.absent k stored] at there
    cases there
  | some r =>
    obtain ⟨t, there', restated, settled⟩ := h.stored k r stored
    obtain rfl := Option.some.inj (there.symm.trans there')
    exact ⟨r, rfl, restated, settled⟩

/-- Nothing is due after reconciliation. -/
theorem Reconciled.not_due (h : Reconciled now c d) {k : ReservationKey}
    (there : d.records[k]? = some s) : ¬ s.Due now := by
  obtain ⟨r, -, restated, settled⟩ := h.before there
  exact restated.not_due settled

/-- No hold is left that would have to be released. -/
theorem Reconciled.not_expired (h : Reconciled now c d) {id : HoldId} {hold : HoldRecord}
    (there : d.holds[id]? = some hold) : ¬ (hold.released = false ∧ hold.expiresAt ≤ now) := by
  have standing := h.holds id
  rw [there] at standing
  cases before : c.holds[id]? with
  | none =>
    rw [before] at standing
    cases standing
  | some g =>
    rw [before] at standing
    obtain ⟨released, expires⟩ := Prod.mk.inj (Option.some.inj standing)
    rintro ⟨held, past⟩
    rw [expires] at past
    rw [held, decide_eq_true past, Bool.or_true] at released
    cases released

/-- The holds that the second loop releases. -/
def expiredHolds (c : Coordinator) (now : Timestamp) : List (HoldId × HoldRecord) :=
  c.holds.toList.filter fun entry => !entry.2.released && entry.2.expiresAt ≤ now

theorem mem_expiredHolds {entry : HoldId × HoldRecord} : entry ∈ c.expiredHolds now ↔
    c.holds[entry.1]? = some entry.2 ∧ entry.2.released = false ∧ entry.2.expiresAt ≤ now := by
  unfold expiredHolds
  rw [List.mem_filter, show entry = (entry.1, entry.2) from rfl, Map.mem_toList]
  simp

theorem mem_expiredHolds_keys {id : HoldId} : id ∈ (c.expiredHolds now).map Prod.fst ↔
    ∃ h, c.holds[id]? = some h ∧ h.released = false ∧ h.expiresAt ≤ now := by
  rw [List.mem_map]
  constructor
  · rintro ⟨entry, mem, rfl⟩
    exact ⟨entry.2, mem_expiredHolds.mp mem⟩
  · rintro ⟨h, there⟩
    exact ⟨(id, h), mem_expiredHolds.mpr there, rfl⟩

theorem nodup_expiredHolds (c : Coordinator) (now : Timestamp) :
    ((c.expiredHolds now).map Prod.fst).Nodup :=
  List.pairwise_map.mpr ((Map.pairwise_toList c.holds).filter _)

/-- The two loops. -/
theorem exec_reconcile (run : (reconcile now).exec c = (.ok (), d)) : ∃ b,
    (Op.each (reconcileTurn now (c.internalContext "time reconciliation")) (c.dueWork now)).exec c =
      (.ok (), b) ∧
    (Op.each (fun entry => releaseHold now entry.1 (ascii "hold deadline reached"))
      (b.expiredHolds now)).exec b = (.ok (), d) := by
  unfold reconcile at run
  rw [Op.exec_get_bind] at run
  obtain ⟨⟨⟩, b, turns, rest⟩ := Op.exec_bind_ok run
  rw [Op.exec_get_bind] at rest
  exact ⟨b, turns, rest⟩

theorem nodup_dueWork (c : Coordinator) (now : Timestamp) : (c.dueWork now).Nodup :=
  List.nodup_dedup _

/-- Where identities have one generation that consumes, the index follows each of them. -/
theorem followed_of_ticks (idle : Idle c) (idle' : Idle d) (queued : Queued c)
    (ticks : Ticks now (c.dueWork now) c d)
    (looked : ∀ (k : ReservationKey) (r : ReservationRecord), c.records[k]? = some r →
      ∃ s, d.records[k]? = some s ∧ Restated r s ∧ s.state = r.reconciledState now)
    (single : Single c) {e : IndexEntry} (kind : e.kind = .reservation) :
    d.index.Has e ↔ ∃ r s, c.records[(⟨e.id, e.holderGeneration⟩ : ReservationKey)]? = some r ∧
      d.records[(⟨e.id, e.holderGeneration⟩ : ReservationKey)]? = some s ∧ s.consumes = true ∧
      if r.Due now then c.Refiled s e else c.index.Has e := by
  have dueOf : ∀ {key}, key ∈ c.dueWork now → ∃ r, c.records[key]? = some r ∧ r.Due now :=
    fun mem => (mem_dueWork queued).mp mem
  have apart : (c.dueWork now).Pairwise fun k l => k.id ≠ l.id := by
    refine (nodup_dueWork c now).imp_of_mem fun {k l} memK memL ne same => ne ?_
    obtain ⟨r, stored, due⟩ := dueOf memK
    obtain ⟨s, there, due'⟩ := dueOf memL
    exact single k l r s stored there due.consumes due'.consumes same
  have lone : ∀ key ∈ c.dueWork now, ∀ r, c.records[key]? = some r → Lone c r := by
    intro key mem r stored f has owned
    obtain ⟨r', stored', due⟩ := dueOf mem
    obtain rfl := Option.some.inj (stored.symm.trans stored')
    obtain ⟨s, there, consumes⟩ := idle.consistent.backed f has owned.1
    have named := idle.consistent.keyed key r stored
    have same := single _ key s r there stored consumes due.consumes
      (owned.2.trans (congrArg ReservationKey.id named))
    exact (congrArg ReservationKey.generation same).trans
      (congrArg ReservationKey.generation named).symm
  -- an entry that no turn is about belongs to a record that is not due
  have untouched : ∀ {r : ReservationRecord},
      c.records[(⟨e.id, e.holderGeneration⟩ : ReservationKey)]? = some r → r.consumes = true →
      ¬ r.Due now → (d.index.Has e ↔ c.index.Has e) := by
    intro r stored consumes not
    refine ticks.elsewhere fun key mem owned => not ?_
    obtain ⟨s, there, due⟩ := dueOf mem
    have same := single _ key r s stored there consumes due.consumes owned.2
    rw [← same, stored] at there
    obtain rfl := Option.some.inj there
    exact due
  have touched : ∀ {r : ReservationRecord},
      c.records[(⟨e.id, e.holderGeneration⟩ : ReservationKey)]? = some r → r.Due now →
      (d.index.Has e ↔ ∃ s, d.records[(⟨e.id, e.holderGeneration⟩ : ReservationKey)]? = some s ∧
        s.consumes = true ∧ c.Refiled s e) := fun {r} stored due =>
    ticks.own apart lone ((mem_dueWork queued).mpr ⟨r, stored, due⟩) ⟨kind, rfl⟩
  constructor
  · intro has
    obtain ⟨s, there, consumes⟩ := idle'.consistent.backed e has kind
    by_cases mem : (⟨e.id, e.holderGeneration⟩ : ReservationKey) ∈ c.dueWork now
    · obtain ⟨r, stored, due⟩ := dueOf mem
      obtain ⟨s', there', consumes', refiled⟩ := (touched stored due).mp has
      refine ⟨r, s', stored, there', consumes', ?_⟩
      rwa [if_pos due]
    · have stored := there
      rw [ticks.other mem] at stored
      have due : ¬ s.Due now := fun due => mem ((mem_dueWork queued).mpr ⟨s, stored, due⟩)
      refine ⟨s, s, stored, there, consumes, ?_⟩
      rw [if_neg due]
      exact (untouched stored consumes due).mp has
  · rintro ⟨r, s, stored, there, consumes, entry⟩
    by_cases due : r.Due now
    · rw [if_pos due] at entry
      exact (touched stored due).mpr ⟨s, there, consumes, entry⟩
    · rw [if_neg due] at entry
      obtain ⟨s', there', restated, settled⟩ := looked _ r stored
      obtain rfl := Option.some.inj (there.symm.trans there')
      unfold ReservationRecord.reconciledState at settled
      rw [if_neg due] at settled
      exact (untouched stored ((restated.same now settled).1 ▸ consumes) due).mpr entry

/-- **Reconciliation** settles what is due, and releases what has expired. -/
theorem reconciled_of_run (idle : Idle c) (queued : Queued c)
    (run : (reconcile now).exec c = (.ok (), d)) : Reconciled now c d ∧ Idle d ∧ Queued d := by
  have moves := within_reconcile (P := Clocked) (fun _ h => h) now c
  unfold Op.Ensures at moves
  rw [run] at moves
  obtain ⟨idle', moves⟩ := moves idle
  have queued' := (moves.invariant_idle idle (I := Queued)
    (fun _ _ _ idle queued _ takes => queued_takes idle takes queued) queued).2
  refine ⟨?_, idle', queued'⟩
  obtain ⟨b, turns, releases⟩ := exec_reconcile run
  have due : ∀ key ∈ c.dueWork now, ∃ r, c.records[key]? = some r ∧ r.Due now :=
    fun key mem => (mem_dueWork queued).mp mem
  obtain ⟨ticks, idleB⟩ := ticks_each (internalContext_attempt c _) idle (nodup_dueWork c now) due turns
  have held : ∀ entry ∈ b.expiredHolds now, ∃ h, b.holds[entry.1]? = some h ∧ h.released = false :=
    fun entry mem => ⟨entry.2, (mem_expiredHolds.mp mem).1, (mem_expiredHolds.mp mem).2.1⟩
  obtain ⟨holds, y, rfl, -, standing, has⟩ :=
    freed_each idleB.consistent.index (nodup_expiredHolds b now) held releases
  have looked : ∀ (k : ReservationKey) (r : ReservationRecord), c.records[k]? = some r →
      ∃ s, b.records[k]? = some s ∧ Restated r s ∧ s.state = r.reconciledState now := by
    intro k r stored
    unfold ReservationRecord.reconciledState
    by_cases own : r.Due now
    · rw [if_pos own]
      obtain ⟨r', s, before, after, restated, settled⟩ :=
        ticks.record (nodup_dueWork c now) ((mem_dueWork queued).mpr ⟨r, stored, own⟩)
      obtain rfl := Option.some.inj (stored.symm.trans before)
      exact ⟨s, after, restated, settled⟩
    · rw [if_neg own]
      refine ⟨r, ?_, .refl r, rfl⟩
      rw [ticks.other, stored]
      intro mem
      obtain ⟨r', there, due⟩ := (mem_dueWork queued).mp mem
      obtain rfl := Option.some.inj (stored.symm.trans there)
      exact own due
  refine
    { stored := looked
      absent := fun k none => ?_
      tallied := ⟨ticks.tallied.fewer, ticks.tallied.live, ticks.tallied.history⟩
      ledger := ticks.ledger
      holds := fun id => ?_
      freed := fun e kind => ?_
      followed := fun single e kind => ?_ }
  · refine (ticks.other fun mem => ?_).trans none
    obtain ⟨r, there, -⟩ := (mem_dueWork queued).mp mem
    rw [none] at there
    cases there
  · refine (standing id).trans ?_
    rw [show b.holds = c.holds from ticks.holds]
    cases there : c.holds[id]? with
    | none => rfl
    | some h =>
      have expired : id ∈ (b.expiredHolds now).map Prod.fst ↔
          h.released = false ∧ h.expiresAt ≤ now := by
        rw [mem_expiredHolds_keys, show b.holds = c.holds from ticks.holds, there]
        simp
      have freed : (h.released || decide (id ∈ (b.expiredHolds now).map Prod.fst)) =
          (h.released || decide (h.expiresAt ≤ now)) := by
        rw [Bool.eq_iff_iff, Bool.or_eq_true, Bool.or_eq_true, decide_eq_true_eq, decide_eq_true_eq,
          expired]
        cases h.released <;> simp
      rw [Option.map_some, Option.map_some, freed]
  · refine (has e).trans ?_
    rw [ticks.elsewhere fun key _ owned => absurd (kind.symm.trans owned.1) (by decide),
      mem_expiredHolds_keys, show b.holds = c.holds from ticks.holds]
    simp [kind]
  · have unheld : ¬ (e.kind = .hold ∧ e.id ∈ (b.expiredHolds now).map Prod.fst) := by
      rintro ⟨hold, -⟩
      exact absurd (kind.symm.trans hold) (by decide)
    refine ((has e).trans (and_iff_left unheld)).trans ?_
    exact followed_of_ticks idle idleB queued ticks looked single kind

/-- **Reconciling again** at the same instant appends nothing and changes nothing. -/
theorem exec_reconcile_again (idle : Idle c) (queued : Queued c)
    (run : (reconcile now).exec c = (.ok (), d)) : (reconcile now).exec d = (.ok (), d) := by
  obtain ⟨reconciled, -, queued'⟩ := reconciled_of_run idle queued run
  have work : d.dueWork now = [] := by
    rw [List.eq_nil_iff_forall_not_mem]
    intro key mem
    obtain ⟨s, there, due⟩ := (mem_dueWork queued').mp mem
    exact reconciled.not_due there due
  have expired : d.expiredHolds now = [] := by
    rw [List.eq_nil_iff_forall_not_mem]
    intro entry mem
    obtain ⟨there, held⟩ := mem_expiredHolds.mp mem
    exact reconciled.not_expired there held
  unfold reconcile
  rw [Op.exec_get_bind, work]
  change (do
    let expired := (← get).expiredHolds now
    Op.each (fun entry => releaseHold now entry.1 (ascii "hold deadline reached")) expired :
      Method Unit).exec d = _
  rw [Op.exec_get_bind, expired]
  rfl

end Coordinator

end Brf
