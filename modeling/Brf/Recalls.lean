import Brf.Descent

/-!
# Recalls

A recall gives a stored generation an effect instant and a grace, and with them a new end of the
interval it consumes. Nothing else changes either.

* `SameWindow r r'`: the terms, the effect instant and the grace of `r'` are those of `r`.
* `Coordinator.Recalled`: what an accepted recall did, one case for each of its branches.
* `ReservationRecord.Shortens`: a recall asks for an end that is not later.

Results: `recall_ok`, `recall_shortens` (exactly when the consuming interval does not grow), and
`second_recall_lengthens`.
-/

namespace Brf

open Brf.Lib

namespace Coordinator

/-! ## What only recalls change -/

/-- The window of a record, and what a recall has made of it. -/
structure SameWindow (r r' : ReservationRecord) : Prop where
  terms : r'.terms = r.terms
  authority : r'.authority = r.authority
  effect : r'.recallEffectiveAt = r.recallEffectiveAt
  grace : r'.recallGrace = r.recallGrace

namespace SameWindow

variable {r s t : ReservationRecord}

theorem refl (r : ReservationRecord) : SameWindow r r := ⟨rfl, rfl, rfl, rfl⟩

theorem trans (h : SameWindow r s) (h' : SameWindow s t) : SameWindow r t :=
  ⟨h'.terms.trans h.terms, h'.authority.trans h.authority, h'.effect.trans h.effect,
    h'.grace.trans h.grace⟩

theorem consuming (h : SameWindow r s) : s.consumingInterval = r.consumingInterval := by
  unfold ReservationRecord.consumingInterval
  rw [h.terms, h.effect, h.grace]

end SameWindow

theorem window_transitioned (c : Coordinator) (r : ReservationRecord) (target : ReservationState)
    (now : Timestamp) (reason : Text) (context : RequestContext) (sequence : DurableSequence) :
    SameWindow r (c.transitioned r target now reason context 0 sequence) := ⟨rfl, rfl, rfl, rfl⟩

/-- Only a recall that is pending changes the window of a stored record. -/
theorem Move.Rewrites.window {c : Coordinator} {m : Move} {r r' : ReservationRecord}
    (h : m.Rewrites c r r')
    (other : ∀ now reason context effect grace, m ≠ .pendRecall r now reason context effect grace) :
    SameWindow r r' := by
  cases h with
  | pendRecall _ now reason context effect grace sequence =>
    exact absurd rfl (other now reason context effect grace)
  | transition _ target now reason context retained sequence =>
    exact window_transitioned c r target now reason context sequence
  | _ => exact ⟨rfl, rfl, rfl, rfl⟩

theorem Move.Becomes.window {c : Coordinator} {m : Move} {r r' : ReservationRecord}
    (h : m.Becomes c r r')
    (other : ∀ s now reason context effect grace, m ≠ .pendRecall s now reason context effect grace) :
    SameWindow r r' := by
  induction h with
  | refl => exact .refl r
  | tail _ turn ih => exact ih.trans (turn.window (other _))

/-! ## Reconciliation -/

section

variable {c c' d : Coordinator} {k : ReservationKey} {r s : ReservationRecord}

/-- What the clock leaves of a record: its window, and whether it is pending for a recall as long as
it consumes. -/
structure Aged (r s : ReservationRecord) : Prop where
  window : SameWindow r s
  key : s.key = r.key
  consumed : s.consumes = true → r.consumes = true
  pending : s.consumes = true → (s.state = .recallPending ↔ r.state = .recallPending)

theorem Aged.refl (r : ReservationRecord) : Aged r r := ⟨.refl r, rfl, id, fun _ => Iff.rfl⟩

theorem Aged.trans {t : ReservationRecord} (h : Aged r s) (h' : Aged s t) : Aged r t :=
  ⟨h.window.trans h'.window, h'.key.trans h.key, fun consumes => h.consumed (h'.consumed consumes),
    fun consumes => (h'.pending consumes).trans (h.pending (h'.consumed consumes))⟩

theorem aged_transition {target : ReservationState} (legal : LegalTarget r target)
    (now : Timestamp) (reason : Text) (context : RequestContext) (sequence : DurableSequence) :
    Aged r (c.transitioned r target now reason context 0 sequence) := by
  have facts : (c.transitioned r target now reason context 0 sequence).consumes = true →
      r.state = .committed ∧ target = .active := by
    intro consumes
    have active : consumesCapacity target = true := (Bool.and_eq_true_iff.mp consumes).1
    rcases legal with both | rfl | rfl | rfl
    · exact both
    all_goals exact absurd active (by decide)
  refine ⟨window_transitioned c r target now reason context sequence, rfl, fun consumes => ?_,
    fun consumes => ?_⟩
  · have applicable := (Bool.and_eq_true_iff.mp consumes).2
    unfold ReservationRecord.consumes
    rw [(facts consumes).1]
    exact applicable
  · have state : (c.transitioned r target now reason context 0 sequence).state = target := rfl
    rw [state, (facts consumes).1, (facts consumes).2]
    decide

/-- Every record after a reconciliation is one from before, aged. -/
theorem aged_clocked (idle : Idle c) (h : Runs Clocked c d) (there : d.records[k]? = some s) :
    ∃ r, c.records[k]? = some r ∧ Aged r s := by
  have both := (h idle).2.invariant_idle idle (I := fun e => ∀ s, e.records[k]? = some s →
    ∃ r, c.records[k]? = some r ∧ Aged r s) ?_ fun r there => ⟨r, there, .refl r⟩
  · exact both.2 s there
  · intro e e' m eIdle kept own takes t stored
    rcases becomes_takes eIdle takes stored with ⟨registered, -⟩ | ⟨before, was, becomes⟩
    · rcases record_recollections registered with ⟨p, victims, rfl, -⟩ |
        ⟨p, superseded, successors, mutation, rfl, -⟩ | ⟨r', binding, now, context, rfl, -⟩
      all_goals exact own.elim
    · obtain ⟨r, first, aged⟩ := kept before was
      refine ⟨r, first, ?_⟩
      clear stored first kept
      induction becomes with
      | refl => exact aged
      | tail _ turn ih =>
        refine ih.trans ?_
        cases turn with
        | transition _ target now reason context retained sequence =>
          exact aged_transition takes.2.2.1 now reason context sequence
        | _ => exact own.elim

/-! ## What a recall does -/

/-- A branch of a recall of `s` that is accepted in `d`. -/
inductive Recalled (now : Timestamp) (effect : Timestamp) (grace : Duration) (d : Coordinator)
    (s : ReservationRecord) : Coordinator → Prop
  | repeated : s.state = .recallPending → s.recallEffectiveAt = effect →
      Recalled now effect grace d s d
  | immediate {d' : Coordinator} (reason : Text) (context : RequestContext) (sequence) :
      ¬ (s.state = .recallPending ∧ s.recallEffectiveAt = effect) → effect ≤ now →
      d'.records = d.records.insert s.key (d.transitioned s .revoked now reason context 0 sequence) →
      Recalled now effect grace d s d'
  | pending {d' : Coordinator} (reason : Text) (context : RequestContext) (sequence) :
      ¬ (s.state = .recallPending ∧ s.recallEffectiveAt = effect) → now < effect →
      d'.records = d.records.insert s.key
        ((d.transitioned s .recallPending now reason context effect sequence).graced grace) →
      Recalled now effect grace d s d'

/-- The caller's transition puts the record in its next form. -/
theorem transitionFor_ok (idle : Idle d) (stored : d.records[s.key]? = some s)
    {target : ReservationState} {now : Timestamp} {reason : Text} {context : RequestContext}
    {moved : ReservationRecord} {d' : Coordinator}
    (done : (transitionFor context s target now reason).exec d = (.ok moved, d')) :
    d'.records = d.records.insert s.key
      (d.transitioned s target now reason context 0 (d.store.lastSequence + 1)) := by
  unfold transitionFor at done
  obtain ⟨⟨next, attempt⟩, e, ran, rest⟩ := Op.exec_bind_ok done
  obtain ⟨-, -, c₁, appended, rfl⟩ := (ensures_transition idle stored target now reason context
    0).of_run ran
  obtain ⟨-, left⟩ := Prod.mk.inj rest
  rw [← left]
  have sound := idle.consistent.sound _ _ stored
  obtain ⟨faults, rfl⟩ := appended.shape
  obtain ⟨-, y, shape, -, -⟩ := ensures_applyTransition (idle.appended appended).consistent.index
    sound target now reason context 0 (d.store.lastSequence + 1)
  change ((applyTransition s target now reason context 0 (d.store.lastSequence + 1)).exec
    (d.logged _ faults)).2.records = _
  rw [shape, replaced_records]
  rfl

/-- The record an operation names is there. -/
theorem namedRecord_bind_ok {α : Type} {id : ReservationId} {generation : ReservationGeneration}
    {absent : String} {f : ReservationRecord → Method α} {a : α}
    (h : (namedRecord id generation absent >>= f).exec c = (.ok a, c')) :
    ∃ r, c.records[(⟨id, generation⟩ : ReservationKey)]? = some r ∧
      (f r).exec c = (.ok a, c') := by
  unfold namedRecord findRecord at h
  rw [bind_assoc, Op.exec_get_bind] at h
  cases found : c.records[(⟨id, generation⟩ : ReservationKey)]? with
  | none =>
    rw [found] at h
    cases h
  | some r =>
    rw [found] at h
    exact ⟨r, rfl, h⟩

/-- The pending branch: the transition, and then its grace. -/
theorem pend_ok (idle : Idle d) (stored : d.records[s.key]? = some s) {now effect : Timestamp}
    {reason : Text} {context : RequestContext} {grace : Duration} {result : LifecycleResult}
    (done : (do
      let (r, attempt) ← transition s .recallPending now reason context effect
      let r ← setGrace r grace
      modify fun c => c.rememberAttempt attempt
      pure { record := r, transitions := 1 } : Method LifecycleResult).exec d =
        (.ok result, c')) :
    c'.records = d.records.insert s.key ((d.transitioned s .recallPending now reason context effect
      (d.store.lastSequence + 1)).graced grace) := by
  obtain ⟨⟨next, attempt⟩, e, ran, done⟩ := Op.exec_bind_ok done
  obtain ⟨rfl, -, c₁, appended, rfl⟩ := (ensures_transition idle stored .recallPending now reason
    context effect).of_run ran
  have sound := idle.consistent.sound _ _ stored
  obtain ⟨faults, rfl⟩ := appended.shape
  have loggedIdle := idle.appended appended
  obtain ⟨key, terms, authority⟩ := transitioned_kept d s .recallPending now reason context effect
    (d.store.lastSequence + 1)
  have msound := Sound.of_kept sound terms authority
  obtain ⟨-, y, shape, wf, follows⟩ := ensures_applyTransition loggedIdle.consistent.index
    sound .recallPending now reason context effect (d.store.lastSequence + 1)
  have shape' : ((applyTransition s .recallPending now reason context effect
      (d.store.lastSequence + 1)).exec (d.logged _ faults)).2 = (d.logged _ faults).replaced s
        (d.transitioned s .recallPending now reason context effect (d.store.lastSequence + 1)) y :=
    shape
  rw [shape'] at done
  have moved := idle_moved (r := s) loggedIdle msound wf (follows.tracks loggedIdle.consistent.index)
  obtain ⟨g, e', graced, done⟩ := Op.exec_bind_ok done
  obtain ⟨same, y', rfl, -, -⟩ := (ensures_setGrace moved.consistent.index msound grace).of_run
    graced
  obtain ⟨-, left⟩ := Prod.mk.inj done
  rw [← left]
  change (((d.logged _ faults).replaced s _ y).replaced _ _ y').records = _
  rw [replaced_records, replaced_records]
  have own : ((d.transitioned s .recallPending now reason context effect
      (d.store.lastSequence + 1)).graced grace).key = s.key := key
  rw [own, key]
  exact Map.insert_insert d.records s.key _ _

/-- **What an accepted recall does**: nothing if its attempt is known, and one of its branches on the
record that the reconciliation leaves otherwise. -/
theorem recall_ok (idle : Idle c) {now : Timestamp} {context : RequestContext} {id : ReservationId}
    {generation : ReservationGeneration} {effectiveAt : Timestamp} {grace : Duration} {force : Bool}
    {result : LifecycleResult}
    (accepted : («recall» now context id generation effectiveAt grace force).exec c =
      (.ok result, c')) : ∃ r : ReservationRecord, r.key = ⟨id, generation⟩ ∧
      c.records[r.key]? = some r ∧
      (c.attempts[context.attempt]?.isSome = true ∧ c' = c ∨
        c.attempts[context.attempt]?.isSome = false ∧ ∃ d s effect, Runs Clocked c d ∧
          s.key = r.key ∧ d.records[s.key]? = some s ∧ s.consumes = true ∧
          recallEffect s now effectiveAt force = .ok effect ∧
          Recalled now effect (recallGrace (d.policyFor s.authority.policy).1 grace) d s c') := by
  unfold «recall» at accepted
  rw [Op.exec_get_bind] at accepted
  obtain ⟨-, -, accepted⟩ := Op.exec_lift_bind_ok accepted
  obtain ⟨r, found, accepted⟩ := namedRecord_bind_ok accepted
  have key := idle.consistent.keyed _ r found
  have stored : c.records[r.key]? = some r := key ▸ found
  refine ⟨r, key, stored, ?_⟩
  rw [Op.exec_get_bind] at accepted
  cases known : c.attempts[context.attempt]?.isSome with
  | true =>
    rw [known] at accepted
    exact .inl ⟨rfl, (congrArg Prod.snd accepted).symm⟩
  | false =>
    rw [known] at accepted
    refine .inr ⟨rfl, ?_⟩
    obtain ⟨⟨⟩, d, reconciled, accepted⟩ := Op.exec_bind_ok accepted
    have clocked : Runs Clocked c d := (within_reconcile (fun _ h => h) now c).of_run reconciled
    have prepared : Prepared (.recall now context id generation effectiveAt grace force) c d :=
      (within_reconcile_prepared _ now c).of_run reconciled
    have dIdle := (clocked idle).1
    obtain ⟨s, reread, same, there⟩ := prepared.reread idle stored
    rw [Op.exec_bind_of_ok reread] at accepted
    obtain ⟨consuming, accepted⟩ := Op.exec_refuseIf_bind_ok accepted
    rw [Op.exec_get_bind] at accepted
    obtain ⟨-, accepted⟩ := Op.exec_refuseIf_bind_ok accepted
    obtain ⟨effect, asked, accepted⟩ := Op.exec_lift_bind_ok accepted
    refine ⟨d, s, effect, clocked, same, there, by simpa using consuming, asked, ?_⟩
    by_cases repeated : s.state = .recallPending ∧ s.recallEffectiveAt = effect
    · rw [if_pos (by simpa using repeated)] at accepted
      obtain rfl : d = c' := congrArg Prod.snd accepted
      exact .repeated repeated.1 repeated.2
    · rw [if_neg (by simpa using repeated)] at accepted
      by_cases due : effect ≤ now
      · rw [if_pos due] at accepted
        obtain ⟨moved, d', done, accepted⟩ := Op.exec_bind_ok accepted
        rw [Op.exec_modify_bind] at accepted
        obtain rfl : countRevocation d' = c' := congrArg Prod.snd accepted
        have moves := transitionFor_ok dIdle there done
        exact .immediate _ _ _ repeated due moves
      · rw [if_neg due] at accepted
        exact .pending _ _ _ repeated (not_le.mp due) (pend_ok dIdle there accepted)

/-! ## The end of the consuming interval -/

/-- The end a recall gives the interval of a record that had none of its own. -/
theorem graced_stop (s : ReservationRecord) (window : s.terms.interval.start ≤ s.terms.interval.stop)
    (x : Timestamp) (above : s.terms.interval.start ≤ x) (within : x ≤ s.terms.interval.stop) :
    s.consumingInterval.stop ≤ x ↔ x = s.terms.interval.stop ∨
      0 < s.recallEffectiveAt.val ∧ s.recallEffectiveAt < s.terms.interval.stop ∧
        I64.wrap (s.recallEffectiveAt.val + s.recallGrace.val) ≤ x := by
  unfold ReservationRecord.consumingInterval
  by_cases shortened : 0 < s.recallEffectiveAt.val ∧
      s.recallEffectiveAt < s.terms.interval.stop
  · rw [if_pos (by simpa using shortened)]
    dsimp only
    generalize I64.wrap (s.recallEffectiveAt.val + s.recallGrace.val) = released
    have sides : (x = s.terms.interval.stop ∨ 0 < s.recallEffectiveAt.val ∧
        s.recallEffectiveAt < s.terms.interval.stop ∧ released ≤ x) ↔
          x = s.terms.interval.stop ∨ released ≤ x := by
      simp only [shortened.1, shortened.2, true_and]
    rw [sides]
    generalize s.terms.interval.start = start at *
    generalize s.terms.interval.stop = stop at *
    clear shortened sides
    split_ifs with late early early
    · exact absurd early (not_lt.mpr window)
    · constructor
      · intro le
        exact .inl (le_antisymm within le)
      · rintro (rfl | le)
        · exact le_rfl
        · exact le_of_lt (lt_of_lt_of_le late le)
    · exact ⟨fun _ => .inr ((le_of_lt early).trans above), fun _ => above⟩
    · constructor
      · exact .inr
      · rintro (rfl | le)
        · exact le_of_not_gt late
        · exact le
  · rw [if_neg (by simpa using shortened)]
    constructor
    · intro le
      exact .inl (le_antisymm within le)
    · rintro (rfl | both)
      · exact le_rfl
      · exact absurd ⟨both.1, both.2.1⟩ shortened

/-- The window of a record is valid. -/
def WellTimed (r : ReservationRecord) : Prop := validateInterval r.terms.interval = .ok ()

theorem lasting_wellTimed : Lasting WellTimed := by
  intro r r' descends h
  unfold WellTimed
  rw [descends.terms]
  exact h

theorem headD_mem {windows : List Interval} (some : 0 < windows.length) :
    windows.headD {} ∈ windows := by
  obtain ⟨w, rest, rfl⟩ := List.exists_cons_of_length_pos some
  exact List.mem_cons_self

/-- What a commit registers has one of the windows that its terms expand to. -/
theorem wellTimed_registered {m : Move} (idle : Idle c) (all : All WellTimed c)
    (takes : m.Takes c c') : ∀ r, .record r ∈ m.recollections c → WellTimed r := by
  intro r registered
  rcases record_recollections registered with ⟨p, victims, rfl, mem⟩ |
    ⟨p, superseded, successors, mutation, rfl, mem⟩ | ⟨r', binding, now, context, rfl, rfl⟩
  · obtain ⟨admitted, -⟩ := takes
    have some := (expandSeries_length admitted.intervals).2
    have valid := expandSeries_valid admitted.intervals (validateTerms_interval admitted.terms)
    rw [createMutation_records c victims some] at mem
    unfold createRecords at mem
    split at mem
    · obtain ⟨i, inside, rfl⟩ := List.mem_mapIdx.mp mem
      exact valid _ (List.getElem_mem inside)
    · rw [List.mem_singleton.mp mem]
      exact valid _ (headD_mem some)
  · obtain ⟨made, -⟩ := takes_amend idle takes
    have admitted := takes.1
    have some := (expandSeries_length admitted.intervals).2
    have valid := expandSeries_valid admitted.intervals (validateTerms_interval admitted.terms)
    rcases (amendMutation_successors made).2 with ⟨-, rfl⟩ | ⟨-, rfl⟩
    · obtain ⟨i, inside, rfl⟩ := List.mem_mapIdx.mp mem
      unfold amendedMember
      split <;> exact valid _ (List.getElem_mem inside)
    · rw [List.mem_singleton.mp mem]
      exact valid _ (headD_mem some)
  · have own : WellTimed r' := all.stored _ _ takes.2.1
    exact own

/-- A recall of `r` asks for no later end: its attempt is known, the record consumes its whole window
as it is, the recall takes effect at once, it repeats the one that is pending, or its effect instant
and its grace together do not end later than the consuming interval does. -/
def Shortens (c : Coordinator) (now : Timestamp) (context : RequestContext) (r : ReservationRecord)
    (effectiveAt : Timestamp) (grace : Duration) (force : Bool) : Prop :=
  c.attempts[context.attempt]?.isSome = true ∨
    r.consumingInterval.stop = r.terms.interval.stop ∨
    ∀ effect, recallEffect r now effectiveAt force = .ok effect →
      effect ≤ now ∨ (r.state = .recallPending ∧ r.recallEffectiveAt = effect) ∨
      let recalledAt := if 0 < effect.val then effect else r.recallEffectiveAt
      0 < recalledAt.val ∧ recalledAt < r.terms.interval.stop ∧
        I64.wrap (recalledAt.val + (recallGrace (c.policyFor r.authority.policy).1 grace).val) ≤
          r.consumingInterval.stop

/-- A well timed record consumes at least up to its start, and at most up to its end. -/
theorem WellTimed.bounds (h : WellTimed r) : r.terms.interval.start ≤ r.terms.interval.stop ∧
    r.terms.interval.start ≤ r.consumingInterval.stop ∧
    r.consumingInterval.stop ≤ r.terms.interval.stop := by
  have order : r.terms.interval.start ≤ r.terms.interval.stop :=
    le_of_lt (validateInterval_ok h).2.1
  refine ⟨order, ?_, r.consumingInterval_stop_le order⟩
  unfold ReservationRecord.consumingInterval
  dsimp only
  split_ifs with shortened late early early
  · exact le_rfl
  · exact order
  · exact le_rfl
  · exact le_of_not_gt early
  · exact order

/-- A reconciliation leaves the policies alone. -/
theorem clocked_policy (idle : Idle c) (h : Runs Clocked c d) (name : PolicyName) :
    d.policyFor name = c.policyFor name := by
  have framed := Runs.framed idle
    (h.mono fun m own => (prepared_clocked (.reconcileLifecycle 0 {}) m own).1)
  unfold policyFor
  rw [framed.policies]

/-- **A recall does not lengthen** what a record consumes exactly if it asks for no later end. -/
theorem recall_stop (idle : Idle c) (timed : All WellTimed c) {now : Timestamp}
    {context : RequestContext} {id : ReservationId} {generation : ReservationGeneration}
    {effectiveAt : Timestamp} {grace : Duration} {force : Bool} {result : LifecycleResult}
    (accepted : («recall» now context id generation effectiveAt grace force).exec c =
      (.ok result, c')) : ∃ r r' : ReservationRecord,
      c.records[(⟨id, generation⟩ : ReservationKey)]? = some r ∧
      c'.records[(⟨id, generation⟩ : ReservationKey)]? = some r' ∧
      (r'.consumingInterval.stop ≤ r.consumingInterval.stop ↔
        c.Shortens now context r effectiveAt grace force) := by
  obtain ⟨r, key, stored, outcome⟩ := recall_ok idle accepted
  rw [← key]
  obtain ⟨order, above, within⟩ := (timed.stored _ _ stored).bounds
  rcases outcome with ⟨known, rfl⟩ | ⟨unknown, d, s, effect, clocked, same, there, consumes, asked,
    recalled⟩
  · exact ⟨r, r, stored, stored, fun _ => .inl known, fun _ => le_rfl⟩
  obtain ⟨r₀, before, aged⟩ := aged_clocked idle clocked there
  rw [same, stored] at before
  obtain rfl := Option.some.inj before
  have asked' : recallEffect r now effectiveAt force = .ok effect := by
    rw [← asked]
    unfold recallEffect
    rw [aged.window.terms]
  have unique : ∀ e, recallEffect r now effectiveAt force = .ok e → e = effect := fun e other =>
    Except.ok.inj (other.symm.trans asked')
  have pendingSame : (s.state = .recallPending ∧ s.recallEffectiveAt = effect) ↔
      (r.state = .recallPending ∧ r.recallEffectiveAt = effect) := by
    rw [aged.pending consumes, aged.window.effect]
  cases recalled with
  | repeated pending effectSame =>
    refine ⟨r, s, stored, same ▸ there, fun _ => .inr (.inr fun e own => .inr (.inl ?_)), fun _ => ?_⟩
    · rw [unique e own]
      exact pendingSame.mp ⟨pending, effectSame⟩
    · rw [aged.window.consuming]
  | immediate reason context' sequence fresh due records =>
    refine ⟨r, _, stored, by rw [records, same, Map.get_insert, if_pos rfl],
      fun _ => .inr (.inr fun e own => .inl (unique e own ▸ due)), fun _ => ?_⟩
    rw [(aged.window.trans (window_transitioned d s .revoked now reason context' sequence)).consuming]
  | pending reason context' sequence fresh later records =>
    refine ⟨r, _, stored, by rw [records, same, Map.get_insert, if_pos rfl], ?_⟩
    have policy := clocked_policy idle clocked s.authority.policy
    rw [aged.window.authority] at policy
    have ended := graced_stop ((d.transitioned s .recallPending now reason context' effect
      sequence).graced (recallGrace (d.policyFor s.authority.policy).1 grace))
    have terms : (d.transitioned s .recallPending now reason context' effect sequence).terms =
        r.terms := (transitioned_kept d s .recallPending now reason context' effect
          sequence).2.1.trans aged.window.terms
    have instant : (d.transitioned s .recallPending now reason context' effect
        sequence).recallEffectiveAt = if 0 < effect.val then effect else r.recallEffectiveAt := by
      unfold transitioned
      split
      · rfl
      · exact aged.window.effect
    have ended := ended (terms ▸ order) r.consumingInterval.stop (terms ▸ above) (terms ▸ within)
    refine ended.trans ?_
    rw [ReservationRecord.graced]
    dsimp only
    rw [terms, instant, aged.window.authority, policy]
    constructor
    · rintro (whole | early)
      · exact .inr (.inl whole)
      · exact .inr (.inr fun e own => .inr (.inr (unique e own ▸ early)))
    · rintro (known | whole | asks)
      · exact absurd (known.symm.trans unknown) (by decide)
      · exact .inl whole
      · rcases asks effect asked' with due | again | early
        · exact absurd later (not_lt.mpr due)
        · exact absurd (pendingSame.mpr again) fresh
        · exact .inr early

end

/-- No move but a recall changes the interval that a stored generation consumes. -/
theorem window_takes {d d' : Coordinator} (idle : Idle d) {m : Move} (takes : m.Takes d d')
    (other : ∀ r now reason context effect grace, m ≠ .pendRecall r now reason context effect grace)
    {k : ReservationKey} {s s' : ReservationRecord} (before : d.records[k]? = some s)
    (there : d'.records[k]? = some s') (old : ¬ .record s' ∈ m.recollections d) :
    s'.consumingInterval = s.consumingInterval := by
  rcases becomes_takes idle takes there with ⟨registered, -⟩ | ⟨r, stored, becomes⟩
  · exact absurd registered old
  · obtain rfl := Option.some.inj (before.symm.trans stored)
    exact (becomes.window other).consuming

end Coordinator

open Coordinator in
/-- **Recalls** that are accepted do not lengthen the interval that the recalled generation consumes
exactly if they ask for no later end, and between recalls nothing changes it but a registration of
the generation anew. -/
theorem recall_shortens {as : List Action} {c : Coordinator} (h : System.run as = .up c)
    {faults : List Bool} {now : Timestamp} {context : RequestContext} {id : ReservationId}
    {generation : ReservationGeneration} {effectiveAt : Timestamp} {grace : Duration} {force : Bool}
    {result : LifecycleResult} {c' : Coordinator}
    (accepted : («recall» now context id generation effectiveAt grace force).exec
      (c.withFaults faults) = (.ok result, c')) :
    (∃ r r' : ReservationRecord, c.records[(⟨id, generation⟩ : ReservationKey)]? = some r ∧
      c'.records[(⟨id, generation⟩ : ReservationKey)]? = some r' ∧
      (r'.consumingInterval.stop ≤ r.consumingInterval.stop ↔
        c.Shortens now context r effectiveAt grace force)) ∧
    ∀ (d d' : Coordinator) (m : Move) (k : ReservationKey) (s s' : ReservationRecord), Idle d →
      m.Takes d d' →
      (∀ r now reason context effect grace, m ≠ .pendRecall r now reason context effect grace) →
      d.records[k]? = some s → d'.records[k]? = some s' → ¬ .record s' ∈ m.recollections d →
      s'.consumingInterval = s.consumingInterval := by
  refine ⟨?_, fun d d' m k s s' idle takes other before there old =>
    window_takes idle takes other before there old⟩
  have idle : Idle (c.withFaults faults) :=
    idle_takes (m := .quiet) (System.reachable_idle h).1 ⟨faults, c.stats, rfl⟩
  have timed := System.all_reachable lasting_wellTimed
    (fun idle all takes => wellTimed_registered idle all takes) h
  have timed' : All WellTimed (c.withFaults faults) := timed.same rfl rfl
  exact recall_stop idle timed' accepted

namespace System.Sample

/-- The reservation 50 is recalled with an effect instant. -/
def recalled (now : Timestamp) (attempt : AttemptId) (effectiveAt : Timestamp) : Action :=
  { event := .request (.recall now (context 1 attempt) 50 1 effectiveAt 0 false) }

end System.Sample

open System.Sample in
/-- The first recall of a reservation. -/
theorem recall_shortens_first :
    let c := (System.run [opened 0, ingested, created 1 3 20 30 50]).coordinator
    ∃ result c', (Coordinator.recall 4 (context 1 21) 50 1 120 0 false).exec (c.withFaults []) =
        (.ok result, c') ∧ ∃ r r' : ReservationRecord,
      c.records[(⟨50, 1⟩ : ReservationKey)]? = some r ∧
      c'.records[(⟨50, 1⟩ : ReservationKey)]? = some r' ∧
      (r'.consumingInterval.stop ≤ r.consumingInterval.stop ↔
        c.Shortens 4 (context 1 21) r 120 0 false) := by
  intro c
  have up : System.run [opened 0, ingested, created 1 3 20 30 50] = .up c :=
    System.eq_up (by decide +kernel)
  have fine : ((Coordinator.recall 4 (context 1 21) 50 1 120 0 false).exec
      (c.withFaults [])).1.toBool = true := by decide +kernel
  rcases accepted : (Coordinator.recall 4 (context 1 21) 50 1 120 0 false).exec (c.withFaults [])
    with ⟨e | result, c'⟩
  · rw [accepted] at fine
    cases fine
  · exact ⟨result, c', rfl, (recall_shortens up accepted).1⟩

open System.Sample in
/-- A second recall takes effect later than the first, and the reservation consumes longer again. -/
theorem second_recall_lengthens :
    ¬ ∀ (as : List Action) (c c' : Coordinator) (faults : List Bool) (now : Timestamp)
      (context : RequestContext) (id : ReservationId) (generation : ReservationGeneration)
      (effectiveAt : Timestamp) (grace : Duration) (force : Bool) (result : LifecycleResult)
      (r r' : ReservationRecord), System.run as = .up c →
      (Coordinator.recall now context id generation effectiveAt grace force).exec
        (c.withFaults faults) = (.ok result, c') →
      c.records[(⟨id, generation⟩ : ReservationKey)]? = some r →
      c'.records[(⟨id, generation⟩ : ReservationKey)]? = some r' →
      r'.consumingInterval.stop ≤ r.consumingInterval.stop := by
  intro claimed
  let as := [opened 0, ingested, created 1 3 20 30 50, recalled 4 21 120]
  let done := (Coordinator.recall 5 (context 1 22) 50 1 180 0 false).exec
    ((System.run as).coordinator.withFaults [])
  have facts : (System.run as).isUp = true ∧ done.1.toBool = true ∧
      ((System.run as).coordinator.records[(⟨50, 1⟩ : ReservationKey)]?).any (fun r =>
        r.consumingInterval.stop = 120) = true ∧
      (done.2.records[(⟨50, 1⟩ : ReservationKey)]?).any (fun r =>
        r.consumingInterval.stop = 180) = true := by decide +kernel
  obtain ⟨up, fine, first, second⟩ := facts
  obtain ⟨r, stored, before⟩ := (Option.any_eq_true _ _).mp first
  obtain ⟨r', stored', after⟩ := (Option.any_eq_true _ _).mp second
  rcases accepted : done with ⟨e | result, c'⟩
  · rw [accepted] at fine
    cases fine
  · rw [accepted] at stored'
    have le := claimed as _ c' [] 5 (context 1 22) 50 1 180 0 false result r r' (System.eq_up up)
      accepted stored stored'
    rw [of_decide_eq_true before, of_decide_eq_true after] at le
    exact absurd le (by decide)

end Brf
