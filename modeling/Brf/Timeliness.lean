import Brf.Currency
import Brf.Deadlines
import Brf.Recalls
import Brf.States

/-!
# When reconciliation happens

Reconciliation is lazy: what the clock has made due is done by the next operation. What that leaves
does not depend on how often it was done before.

* `Reconciled.trans`: reconciling at an instant and at a later one is reconciling at the later one.
* `Agree c d`: the same reservations in the same states, the same holds released, the same counters
  and the same entries in the index.

Results: `reconcile_path_independent` and `reconcile_timely`.
-/

namespace Brf

open Brf.Lib
open ReservationRecord (Owns Restated)

/-- What a reservation amounts to: its state, its applicability, what it consumes and its terms. -/
def ReservationRecord.face (r : ReservationRecord) :
    ReservationState × Applicability × Interval × ReservationTerms :=
  (r.state, r.applicability, r.consumingInterval, r.terms)

namespace Coordinator

variable {b c d e : Coordinator} {r s : ReservationRecord} {now later : Timestamp}

/-- A record that consumes after reconciliation has done so before. -/
theorem consumes_before (restated : Restated r s) (settled : s.state = r.reconciledState now)
    (consumes : s.consumes = true) : r.consumes = true := by
  unfold ReservationRecord.reconciledState at settled
  by_cases due : r.Due now
  · exact due.consumes
  · rw [if_neg due] at settled
    rw [← (restated.same now settled).1, consumes]

/-- Reconciliation leaves no second generation of an identity that consumes. -/
theorem Reconciled.single (h : Reconciled now c d) (single : Single c) : Single d := by
  intro k l r s thereK thereL consumesR consumesS same
  obtain ⟨r', storedR, restatedR, settledR⟩ := h.before thereK
  obtain ⟨s', storedS, restatedS, settledS⟩ := h.before thereL
  exact single k l r' s' storedR storedS (consumes_before restatedR settledR consumesR)
    (consumes_before restatedS settledS consumesS) same

/-- A hold that reconciliation leaves is one that was there. -/
theorem Reconciled.hold_before (h : Reconciled now c d) {id : HoldId} :
    (∃ g, d.holds[id]? = some g ∧ g.released = false ∧ g.expiresAt ≤ later) ↔
      ∃ g, c.holds[id]? = some g ∧ g.released = false ∧ now < g.expiresAt ∧ g.expiresAt ≤ later := by
  have standing := h.holds id
  cases before : c.holds[id]? with
  | none =>
    rw [before, Option.map_none, Option.map_eq_none_iff] at standing
    simp [standing]
  | some g =>
    rw [before] at standing
    obtain ⟨g', there, same⟩ := Option.map_eq_some_iff.mp standing
    obtain ⟨released, expires⟩ := Prod.mk.inj same
    rw [there]
    simp only [Option.some.injEq, exists_eq_left', expires, released, Bool.or_eq_false_iff,
      decide_eq_false_iff_not, not_le, and_assoc]

/-- The index after reconciling twice. -/
theorem Reconciled.follows_later (idle : Idle c) (idle' : Idle d) (single : Single c)
    (h : Reconciled now c d) (h' : Reconciled later d e) (le : now ≤ later) {f : IndexEntry}
    (kind : f.kind = .reservation) : e.index.Has f ↔ ∃ r s,
      c.records[(⟨f.id, f.holderGeneration⟩ : ReservationKey)]? = some r ∧
      e.records[(⟨f.id, f.holderGeneration⟩ : ReservationKey)]? = some s ∧ s.consumes = true ∧
      if r.Due later then c.Refiled s f else c.index.Has f := by
  rw [h'.followed (h.single single) f kind]
  cases stored : c.records[(⟨f.id, f.holderGeneration⟩ : ReservationKey)]? with
  | none =>
    rw [h.absent _ stored]
    simp
  | some r =>
    obtain ⟨s, there, restated, settled⟩ := h.stored _ r stored
    obtain ⟨t, there', restated', settled'⟩ := h'.stored _ s there
    rw [there, there']
    simp only [Option.some.injEq, exists_and_left, exists_eq_left']
    refine and_congr_right fun consumes => ?_
    have running := consumes_before restated' settled' consumes
    -- what the index holds of this generation after the first reconciliation
    have between : ∀ g, Owns f.id g → g.holderGeneration = f.holderGeneration →
        (d.index.Has g ↔ if r.Due now then c.Refiled s g else c.index.Has g) := by
      intro g owned generation
      rw [h.followed single g owned.1, owned.2, generation, stored, there]
      simp [running]
    have here := between f ⟨kind, rfl⟩ rfl
    unfold ReservationRecord.reconciledState at settled settled'
    by_cases due : r.Due now
    · -- the interval has opened, and has not ended since
      rw [if_pos due] at settled here
      have opens : ¬ r.Ends now := by
        intro ends
        have terminal := ReservationRecord.settledState_terminal due.consumes ends
        rw [← settled] at terminal
        rw [terminal_not_consumes terminal] at running
        cases running
      have active := settled.trans (ReservationRecord.settledState_of_opens due opens).2.2
      have settledNow : ¬ s.Due later := by
        intro due'
        rw [if_pos due'] at settled'
        by_cases ends : s.Ends later
        · have terminal := ReservationRecord.settledState_terminal due'.consumes ends
          rw [← settled'] at terminal
          rw [terminal_not_consumes terminal] at consumes
          cases consumes
        · rw [(ReservationRecord.settledState_of_opens due' ends).1] at active
          cases active
      rw [if_neg settledNow] at settled' ⊢
      rw [if_pos (due.mono le), here]
      exact refiled_agree restated' settled' f
    · rw [if_neg due] at settled here
      have sameDue := (restated.same later settled).2.1
      by_cases due' : r.Due later
      · rw [if_pos due', if_pos (sameDue.mpr due')]
        have keyed := (restated.trans restated').key.trans (idle.consistent.keyed _ r stored)
        have id : t.id = f.id := congrArg ReservationKey.id keyed
        have generation : t.generation = f.holderGeneration :=
          congrArg ReservationKey.generation keyed
        refine refiled_congr idle'.consistent.index idle.consistent.index h.ledger
          (fun g owned own => ?_) here
        rw [between g (id ▸ owned) (own.trans generation), if_neg due]
      · rw [if_neg due', if_neg fun no => due' (sameDue.mp no)]
        exact here

/-- **Reconciling at an instant and then later** is reconciling later. -/
theorem Reconciled.trans (idle : Idle c) (idle' : Idle d) (h : Reconciled now c d)
    (h' : Reconciled later d e) (le : now ≤ later) : Reconciled later c e := by
  refine
    { stored := fun k r stored => ?_
      absent := fun k none => h'.absent k (h.absent k none)
      tallied := h.tallied.trans h'.tallied
      ledger := h'.ledger.trans h.ledger
      holds := fun id => ?_
      freed := fun f kind => ?_
      followed := fun single f kind => ?_ }
  · obtain ⟨s, there, restated, settled⟩ := h.stored k r stored
    obtain ⟨t, there', restated', settled'⟩ := h'.stored k s there
    exact ⟨t, there', restated.trans restated',
      settled'.trans (restated.reconciledState_later settled le)⟩
  · have twice := congrArg (Option.map fun p : Bool × Timestamp => (p.1 || decide (p.2 ≤ later), p.2))
      (h.holds id)
    rw [Option.map_map, Option.map_map] at twice
    refine (h'.holds id).trans (twice.trans (congrArg (fun f => Option.map f c.holds[id]?) ?_))
    funext g
    by_cases past : g.expiresAt ≤ now
    · simp [past, past.trans le]
    · simp [past]
  · rw [h'.freed f kind, h.freed f kind, h.hold_before, and_assoc, ← not_or]
    refine and_congr_right fun _ => not_congr ⟨?_, ?_⟩
    · rintro (⟨g, there, held, past⟩ | ⟨g, there, held, -, past⟩)
      · exact ⟨g, there, held, past.trans le⟩
      · exact ⟨g, there, held, past⟩
    · rintro ⟨g, there, held, past⟩
      by_cases early : g.expiresAt ≤ now
      · exact .inl ⟨g, there, held, early⟩
      · exact .inr ⟨g, there, held, lt_of_not_ge early, past⟩
  · exact h.follows_later idle idle' single h' le kind

/-! ## Agreement -/

/-- The same reservations in the same states, the same holds released, the same counters and the
same entries in the index. -/
structure Agree (c d : Coordinator) : Prop where
  records : ∀ k : ReservationKey, (c.records[k]?).map ReservationRecord.face =
    (d.records[k]?).map ReservationRecord.face
  holds : ∀ id : HoldId, (c.holds[id]?).map HoldRecord.released = (d.holds[id]?).map HoldRecord.released
  liveCount : c.liveCount = d.liveCount
  historyCount : c.historyCount = d.historyCount
  index : ∀ e, c.index.Has e ↔ d.index.Has e

/-- What two reconciliations at one instant leave under a key. -/
theorem Reconciled.pair (h : Reconciled now c d) (h' : Reconciled now c e) (k : ReservationKey) :
    (d.records[k]? = none ∧ e.records[k]? = none) ∨ ∃ s t, d.records[k]? = some s ∧
      e.records[k]? = some t ∧ Restated s t ∧ t.state = s.state := by
  cases stored : c.records[k]? with
  | none => exact .inl ⟨h.absent k stored, h'.absent k stored⟩
  | some r =>
    obtain ⟨s, there, restated, settled⟩ := h.stored k r stored
    obtain ⟨t, there', restated', settled'⟩ := h'.stored k r stored
    have same := settled'.trans settled.symm
    exact .inr ⟨s, t, there, there', restated.agree restated' same.symm, same⟩

/-- A restatement in the same state amounts to the same. -/
theorem face_restated (restated : Restated r s) (same : s.state = r.state) : s.face = r.face := by
  unfold ReservationRecord.face
  rw [same, restated.applicability, restated.consumingInterval, restated.terms]

/-- As many records have ended. -/
theorem Reconciled.unended_eq (h : Reconciled now c d) (h' : Reconciled now c e) :
    d.unended = e.unended := by
  refine Map.countP_values_congr fun k => ?_
  rcases h.pair h' k with ⟨none, none'⟩ | ⟨s, t, there, there', -, same⟩
  · rw [none, none']
  · rw [there, there', Option.map_some, Option.map_some, same]

/-- The index after two reconciliations at one instant. -/
theorem Reconciled.index_eq (single : Single c) (h : Reconciled now c d) (h' : Reconciled now c e)
    (f : IndexEntry) : d.index.Has f ↔ e.index.Has f := by
  cases kind : f.kind with
  | hold => rw [h.freed f kind, h'.freed f kind]
  | reservation =>
    rw [h.followed single f kind, h'.followed single f kind]
    refine exists_congr fun r => ?_
    rcases h.pair h' ⟨f.id, f.holderGeneration⟩ with
      ⟨none, none'⟩ | ⟨s, t, there, there', restated, same⟩
    · simp [none, none']
    · rw [there, there']
      simp only [Option.some.injEq, exists_and_left, exists_eq_left']
      rw [(restated.same now same).1, refiled_agree restated same f]

/-- **What reconciliation at an instant leaves** is determined. -/
theorem Reconciled.agree (single : Single c) (h : Reconciled now c d) (h' : Reconciled now c e) :
    Agree d e where
  records k := by
    rcases h.pair h' k with ⟨none, none'⟩ | ⟨s, t, there, there', restated, same⟩
    · rw [none, none']
    · rw [there, there', Option.map_some, Option.map_some, face_restated restated same]
  holds id := by
    have same := congrArg (Option.map Prod.fst) ((h.holds id).trans (h'.holds id).symm)
    rwa [Option.map_map, Option.map_map] at same
  liveCount := by rw [h.tallied.live, h'.tallied.live, h.unended_eq h']
  historyCount := by rw [h.tallied.history, h'.tallied.history, h.unended_eq h']
  index := h.index_eq single h'

/-- What the store will do does not matter to what is reconciled. -/
theorem Reconciled.of_withFaults {faults : List Bool} (h : Reconciled now (c.withFaults faults) d) :
    Reconciled now c d :=
  ⟨h.stored, h.absent, ⟨h.tallied.fewer, h.tallied.live, h.tallied.history⟩, h.ledger, h.holds,
    h.freed, h.followed⟩

/-- A sequence of reconciliations is the last of them. -/
theorem reconciled_each : ∀ {instants : List Timestamp} {c d : Coordinator}, Idle c → Queued c →
    (instants ++ [now]).Pairwise (· ≤ ·) →
    (Op.each reconcile (instants ++ [now])).exec c = (.ok (), d) → Reconciled now c d
  | [], c, d, idle, queued, _, run => by
    obtain ⟨⟨⟩, b, first, rest⟩ := Op.exec_bind_ok run
    obtain ⟨-, rfl⟩ := Prod.mk.inj rest
    exact (reconciled_of_run idle queued first).1
  | t :: instants, c, d, idle, queued, rising, run => by
    obtain ⟨⟨⟩, b, first, rest⟩ := Op.exec_bind_ok run
    obtain ⟨before, rising'⟩ := List.pairwise_cons.mp rising
    obtain ⟨reconciled, idle', queued'⟩ := reconciled_of_run idle queued first
    have last := before now (List.mem_append_right _ List.mem_cons_self)
    exact reconciled.trans idle idle' (reconciled_each idle' queued' rising' rest) last

end Coordinator

open Coordinator in
/-- **Lazy time is path independent**: where no two generations of one identity consume capacity,
reconciling at each of a sequence of instants leaves what reconciling at the last one does. -/
theorem reconcile_path_independent {as : List Action} {c : Coordinator}
    (reached : System.run as = .up c) (single : c.Single) {faults faults' : List Bool}
    {instants : List Timestamp} {now : Timestamp} (rising : (instants ++ [now]).Pairwise (· ≤ ·))
    {d e : Coordinator}
    (stepwise : (Op.each reconcile (instants ++ [now])).exec (c.withFaults faults) = (.ok (), d))
    (direct : (reconcile now).exec (c.withFaults faults') = (.ok (), e)) : d.Agree e := by
  have idle : ∀ faults, Idle (c.withFaults faults) := fun faults =>
    idle_takes (m := .quiet) (System.reachable_idle reached).1 ⟨faults, c.stats, rfl⟩
  have queued : ∀ faults, Queued (c.withFaults faults) := fun faults =>
    (System.reachable_queued reached).same rfl rfl rfl rfl
  have first := (reconciled_each (idle faults) (queued faults) rising stepwise).of_withFaults
  have second := (reconciled_of_run (idle faults') (queued faults') direct).1.of_withFaults
  exact first.agree single second

namespace System.Sample

/-- A series of three loses its first member and is amended to three windows again, so that its last
one is registered over a generation that it supersedes. -/
def regrown : List Action :=
  [opened 8, ingested, createdSeries 3 10 3, released 1 4 20 (member 0) 1, amendedSeries 5 21 1 1 10 3]

/-- A reservation is declared unusable. -/
def staled : List Action :=
  [opened 0, ingested, created 1 3 20 30 50, restated 60,
    { event := .request (.revalidate 5 (context 1 21) 50 1 true) }]

end System.Sample

open Coordinator System.Sample in
/-- The reservation of a run opens, and ends. -/
theorem reconcile_path_independent_created :
    ∃ c d e, System.run [opened 0, ingested, created 1 3 20 30 50] = .up c ∧
      (Op.each reconcile ([150] ++ [300])).exec (c.withFaults []) = (.ok (), d) ∧
      (reconcile 300).exec (c.withFaults []) = (.ok (), e) ∧ d.Agree e := by
  obtain ⟨c, up, only, stepwise, direct⟩ :
      ∃ c, System.run [opened 0, ingested, created 1 3 20 30 50] = .up c ∧
        c.records.toList.map Prod.fst = [⟨50, 1⟩] ∧
        ((Op.each reconcile ([150] ++ [300])).exec (c.withFaults [])).1 = .ok () ∧
        ((reconcile 300).exec (c.withFaults [])).1 = .ok () := by
    refine ⟨_, System.eq_up (by decide +kernel), ?_⟩
    decide +kernel
  have known : ∀ (k : ReservationKey) (r : ReservationRecord), c.records[k]? = some r →
      k = ⟨50, 1⟩ := by
    intro k r stored
    have mem := List.mem_map_of_mem (f := Prod.fst) (Map.mem_toList.mpr stored)
    rw [only] at mem
    exact List.mem_singleton.mp mem
  have single : c.Single := fun k l r s storedR storedS _ _ _ =>
    (known k r storedR).trans (known l s storedS).symm
  have stepwise := Op.exec_of_fst stepwise
  have direct := Op.exec_of_fst direct
  exact ⟨c, _, _, up, stepwise, direct,
    reconcile_path_independent up single (by decide) stepwise direct⟩

open Coordinator System.Sample in
/-- The last window loses its entries when the one before it ends, if that has been activated, and
keeps them otherwise. -/
theorem regrown_depends_on_path :
    ¬ ∀ (as : List Action) (c d e : Coordinator) (faults faults' : List Bool)
      (instants : List Timestamp) (now : Timestamp), System.run as = .up c →
      (instants ++ [now]).Pairwise (· ≤ ·) →
      (Op.each reconcile (instants ++ [now])).exec (c.withFaults faults) = (.ok (), d) →
      (reconcile now).exec (c.withFaults faults') = (.ok (), e) → d.Agree e := by
  intro claimed
  obtain ⟨c, up, stepwise, direct, gone, there⟩ :
      ∃ c, System.run regrown = .up c ∧
        ((Op.each reconcile ([1150] ++ [1250])).exec (c.withFaults [])).1 = .ok () ∧
        ((reconcile 1250).exec (c.withFaults [])).1 = .ok () ∧
        ((Op.each reconcile ([1150] ++ [1250])).exec (c.withFaults [])).2.index.contains
          .reservation (member 2) = false ∧
        ((reconcile 1250).exec (c.withFaults [])).2.index.contains .reservation (member 2) =
          true := by
    refine ⟨_, System.eq_up (by decide +kernel), ?_⟩
    decide +kernel
  have stepwise := Op.exec_of_fst stepwise
  have direct := Op.exec_of_fst direct
  have agree := claimed _ c _ _ [] [] [1150] 1250 up (by decide) stepwise direct
  have idle : Idle (c.withFaults []) :=
    idle_takes (m := .quiet) (System.reachable_idle up).1 ⟨[], c.stats, rfl⟩
  have within := Op.within_each (fun t => within_reconcile (P := Clocked) (fun _ h => h) t)
    ([1150] ++ [1250])
  have wf := ((within _).of_run stepwise idle).1.consistent.index
  have wf' := ((within_reconcile (P := Clocked) (fun _ h => h) 1250 _).of_run direct
    idle).1.consistent.index
  obtain ⟨entry, has, owned⟩ := (CapacityIndex.Wf.contains_iff wf').mp there
  rw [(CapacityIndex.Wf.contains_iff wf).mpr ⟨entry, (agree.index entry).mpr has, owned⟩] at gone
  cases gone

/-! ## Timeliness -/

namespace Coordinator

variable {c d : Coordinator} {now : Timestamp}

/-- Nothing that still counts has been left undone: of the records that are not stale no interval is
still to open that has, none is still to end that has, and no recall is still to take effect that
has; and no hold is left beyond its deadline. -/
structure Timely (c : Coordinator) (now : Timestamp) : Prop where
  opened : ∀ (k : ReservationKey) (r : ReservationRecord), c.records[k]? = some r →
    r.applicability ≠ .stale → r.state = .committed →
      ¬ (r.terms.interval.start ≤ now ∧ now < r.terms.interval.stop)
  ended : ∀ (k : ReservationKey) (r : ReservationRecord), c.records[k]? = some r →
    r.applicability ≠ .stale → isTerminal r.state = false →
      r.state = .committed ∨ r.consumingInterval.empty = false → now < r.consumingInterval.stop
  recalled : ∀ (k : ReservationKey) (r : ReservationRecord), c.records[k]? = some r →
    r.applicability ≠ .stale → r.state = .recallPending → 0 < r.recallEffectiveAt.val →
      now < r.recallEffectiveAt
  held : ∀ (id : HoldId) (h : HoldRecord), c.holds[id]? = some h → h.released = false →
    now < h.expiresAt

/-- A live record that is not stale consumes capacity. -/
theorem consumes_of_live {r : ReservationRecord} (assigned : r.state.assigned = true)
    (current : r.applicability ≠ .stale) (live : isTerminal r.state = false) :
    r.consumes = true := by
  unfold ReservationState.assigned at assigned
  rw [live, Bool.or_false] at assigned
  unfold ReservationRecord.consumes
  rw [assigned]
  simpa using current

/-- What is not due is not late. -/
theorem timely_of_reconciled (assigned : AllAssigned d)
    (timed : ∀ (k : ReservationKey) (r : ReservationRecord), d.records[k]? = some r → WellTimed r)
    (h : Reconciled now c d) : d.Timely now := by
  have not : ∀ {k : ReservationKey} {r : ReservationRecord}, d.records[k]? = some r →
      r.applicability ≠ .stale → isTerminal r.state = false →
      ¬ ((r.state = .committed ∧ r.terms.interval.start ≤ now) ∨
        (r.consumingInterval.empty = false ∧ r.consumingInterval.stop ≤ now) ∨
        (r.state = .recallPending ∧ 0 < r.recallEffectiveAt.val ∧ r.recallEffectiveAt ≤ now)) := by
    intro k r there current live reasons
    have consumes := consumes_of_live (assigned.stored k r there) current live
    exact h.not_due there (ReservationRecord.due_iff.mpr ⟨consumes, reasons⟩)
  refine ⟨?_, ?_, ?_, ?_⟩
  · rintro k r there current committed ⟨started, -⟩
    exact not there current (by rw [committed]; rfl) (.inl ⟨committed, started⟩)
  · rintro k r there current live which
    by_contra late
    rw [not_lt] at late
    rcases which with committed | nonempty
    · have start := (timed k r there).bounds.2.1
      exact not there current live (.inl ⟨committed, start.trans late⟩)
    · exact not there current live (.inr (.inl ⟨nonempty, late⟩))
  · rintro k r there current pending after
    by_contra late
    rw [not_lt] at late
    exact not there current (by rw [pending]; rfl) (.inr (.inr ⟨pending, after, late⟩))
  · rintro id hold there held
    by_contra late
    rw [not_lt] at late
    exact h.not_expired there ⟨held, late⟩

end Coordinator

open Coordinator in
/-- **Reconciliation is complete and idempotent**, apart from records that are stale or whose
consuming interval is empty. -/
theorem reconcile_timely {as : List Action} {c : Coordinator} (reached : System.run as = .up c)
    {faults : List Bool} {now : Timestamp} {d : Coordinator}
    (done : (reconcile now).exec (c.withFaults faults) = (.ok (), d)) :
    d.Timely now ∧ (reconcile now).exec d = (.ok (), d) := by
  have idle : Idle (c.withFaults faults) :=
    idle_takes (m := .quiet) (System.reachable_idle reached).1 ⟨faults, c.stats, rfl⟩
  have queued : Queued (c.withFaults faults) :=
    (System.reachable_queued reached).same rfl rfl rfl rfl
  have assigned : AllAssigned (c.withFaults faults) :=
    (System.reachable_assigned reached).same rfl rfl
  have timed : All WellTimed (c.withFaults faults) :=
    (System.all_reachable lasting_wellTimed
      (fun idle all takes => wellTimed_registered idle all takes) reached).same rfl rfl
  have reconciled := (reconciled_of_run idle queued done).1
  have moves := ((within_reconcile (P := Clocked) (fun _ h => h) now _).of_run done idle).2
  have assigned' := (moves.invariant_idle idle (I := AllAssigned)
    (fun _ _ _ idle assigned _ takes => assigned_takes idle takes assigned) assigned).2
  have timed' : ∀ (k : ReservationKey) (s : ReservationRecord), d.records[k]? = some s →
      WellTimed s := by
    intro k s there
    obtain ⟨r, stored, restated, -⟩ := reconciled.before there
    unfold WellTimed
    rw [restated.terms]
    exact timed.stored k r stored
  exact ⟨timely_of_reconciled assigned' timed' reconciled, exec_reconcile_again idle queued done⟩

open Coordinator System.Sample in
/-- The declared reservation, long after its interval. -/
theorem reconcile_timely_staled :
    ∃ c d, System.run staled = .up c ∧ (reconcile 300).exec (c.withFaults []) = (.ok (), d) ∧
      d.Timely 300 ∧ (reconcile 300).exec d = (.ok (), d) := by
  obtain ⟨c, up, done⟩ : ∃ c, System.run staled = .up c ∧
      ((reconcile 300).exec (c.withFaults [])).1 = .ok () := by
    refine ⟨_, System.eq_up (by decide +kernel), ?_⟩
    decide +kernel
  have done := Op.exec_of_fst done
  exact ⟨c, _, up, done, reconcile_timely up done⟩

open Coordinator System.Sample in
/-- It is neither ended nor live: no queue has it. -/
theorem stale_never_ends :
    ¬ ∀ (as : List Action) (c d : Coordinator) (faults : List Bool) (now : Timestamp),
      System.run as = .up c → (reconcile now).exec (c.withFaults faults) = (.ok (), d) →
      ∀ (k : ReservationKey) (r : ReservationRecord), d.records[k]? = some r →
        isTerminal r.state = false → now < r.consumingInterval.stop := by
  intro claimed
  obtain ⟨c, up, done, late⟩ : ∃ c, System.run staled = .up c ∧
      ((reconcile 300).exec (c.withFaults [])).1 = .ok () ∧
      (((reconcile 300).exec (c.withFaults [])).2.records[(⟨50, 1⟩ : ReservationKey)]?).any
        (fun r => !isTerminal r.state && decide (r.consumingInterval.stop ≤ 300)) = true := by
    refine ⟨_, System.eq_up (by decide +kernel), ?_⟩
    decide +kernel
  obtain ⟨r, there, facts⟩ := (Option.any_eq_true _ _).mp late
  obtain ⟨live, past⟩ := Bool.and_eq_true_iff.mp facts
  have early := claimed _ c _ [] 300 up (Op.exec_of_fst done) _ r there (by simpa using live)
  exact absurd early (not_lt_of_ge (of_decide_eq_true past))

end Brf
