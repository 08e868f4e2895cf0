import Brf.Currency

/-!
# Policy limits at a commit

`create_locked` checks the limits of the policy of its terms: the amount, the headroom, and how far
ahead of the clock the first window starts. `amend_locked` checks none of these. Both let
`expand_series` bound the number of the members.

* `PolicyRecord.Fits`, `PolicyRecord.Reaches`: the limits on what is asked for, and on a window.
* `Move.Commits`: the clock, the terms, the windows and the durable mutation of a commit.
* `Move.Limited`: what a commit registers keeps to the limits of the policy that is in force.

Results: `create_first_reaches` (the first window of a create is checked), `policy_limits` (exactly
when a commit keeps to the limits) and `amended_below_minimum`.
-/

namespace Brf

open Brf.Lib

namespace PolicyRecord

variable (policy : PolicyRecord)

/-- The limits on the amount and on the headroom requirement, where they are set. -/
structure Fits (terms : ReservationTerms) : Prop where
  amount : 0 < policy.minimumReservationAmount.val →
    policy.minimumReservationAmount ≤ terms.amount
  headroom : 0 < policy.maxExtraHeadroom.val →
    terms.headroomRequirement ≤ policy.maxExtraHeadroom

/-- The window starts within the horizon, where one is set. -/
def Reaches (now : Timestamp) (window : Interval) : Prop :=
  0 < policy.maxFutureHorizon.val →
    window.start.val - now.val ≤ policy.maxFutureHorizon.val

variable {policy}

/-- What `create_locked` has checked. -/
theorem checkLimits_ok {terms : ReservationTerms} {now : Timestamp}
    (ok : Coordinator.checkLimits policy terms now = .ok ()) : policy.Fits terms ∧
      (0 < policy.maxFutureHorizon.val →
        I64.wrap (terms.interval.start.val - now.val) ≤ policy.maxFutureHorizon) := by
  unfold Coordinator.checkLimits at ok
  dsimp only at ok
  split at ok
  · cases ok
  obtain ⟨⟨⟩, horizon, ok⟩ := Result.bind_eq_ok.mp ok
  obtain ⟨⟨⟩, amount, ok⟩ := Result.bind_eq_ok.mp ok
  obtain ⟨⟨⟩, headroom, -⟩ := Result.bind_eq_ok.mp ok
  simp only [refuse_eq_ok, Bool.and_eq_false_iff, decide_eq_false_iff_not] at horizon amount headroom
  refine ⟨⟨fun set => ?_, fun set => ?_⟩, fun set => ?_⟩
  · exact not_lt.mp (amount.resolve_left (not_not_intro set))
  · exact not_lt.mp (headroom.resolve_left (not_not_intro set))
  · exact not_lt.mp (horizon.resolve_left (not_not_intro set))

end PolicyRecord

namespace Coordinator

variable {c c' : Coordinator}

/-- What a commit commits: its clock, its terms, whether it commits a series, the windows its records
get, and the mutation it makes durable. -/
def Move.Commits (m : Move) (c : Coordinator) (now : Timestamp) (terms : ReservationTerms)
    (inSeries : Bool) (windows : List Interval) (mutation : ReservationMutation) : Prop :=
  match m with
  | .create p victims => now = p.now ∧ terms = p.terms ∧ inSeries = p.terms.recurrence.enabled ∧
      windows = p.intervals ∧ mutation = c.createMutation p victims
  | .amend p _ _ made => now = p.now ∧ terms = p.terms ∧ inSeries = p.predecessor.seriesMember ∧
      windows = (if p.predecessor.seriesMember then p.intervals else [p.intervals.headD {}]) ∧
      mutation = made
  | _ => False

/-- The commit is an amendment. -/
def Move.amends : Move → Bool
  | .amend .. => true
  | _ => false

/-- What is registered keeps to the limits of the policy. -/
structure Limited (policy : PolicyRecord) (now : Timestamp) (mutation : ReservationMutation) :
    Prop where
  fits : ∀ r ∈ mutation.record :: mutation.members, policy.Fits r.terms
  reaches : ∀ r ∈ mutation.record :: mutation.members, policy.Reaches now r.terms.interval
  members : ∀ series ∈ mutation.series, series.members.length ≤ policy.maxSeriesMembers.val

/-- A series that `expand_series` accepts has no more members than the policy permits. -/
theorem expandSeries_bounded {first : Interval} {spec : RecurrenceSpec} {maxMembers : Nat}
    {out : List Interval} (ok : expandSeries first spec maxMembers = .ok out)
    (enabled : spec.enabled = true) : out.length ≤ maxMembers := by
  have length := (expandSeries_length ok).1
  rw [if_pos enabled] at length
  unfold expandSeries at ok
  simp only [enabled, Bool.not_true, Bool.false_eq_true, if_false] at ok
  obtain ⟨⟨⟩, -, ok⟩ := Result.bind_eq_ok.mp ok
  obtain ⟨⟨⟩, bounded, -⟩ := Result.bind_eq_ok.mp ok
  have bounded := refuse_eq_ok.mp bounded
  rw [length]
  simpa using bounded

/-- The terms of what a commit registers are those of the request, at its windows. -/
theorem committed_terms (idle : Idle c) {m : Move} (takes : m.Takes c c') {now : Timestamp}
    {terms : ReservationTerms} {inSeries : Bool} {windows : List Interval}
    {mutation : ReservationMutation}
    (commits : m.Commits c now terms inSeries windows mutation) :
    ((mutation.record :: mutation.members).map ReservationRecord.terms).Perm
      (windows.map (shifted terms)) := by
  -- whatever else a record at a place is made of, its terms are those of the window there
  have placed : ∀ {make : Nat → Interval → ReservationRecord},
      (∀ i w, (make i w).terms = shifted terms w) → ∀ windows : List Interval,
        (windows.mapIdx make).map ReservationRecord.terms = windows.map (shifted terms) := by
    intro make own windows
    rw [List.ext_getElem_iff]
    simp [own]
  cases m with
  | create p victims =>
    obtain ⟨-, rfl, rfl, rfl, rfl⟩ := commits
    have length := expandSeries_length takes.1.intervals
    rw [createMutation_records c victims length.2]
    unfold createRecords
    by_cases enabled : p.terms.recurrence.enabled = true
    · rw [if_pos enabled, placed fun _ _ => rfl]
    · rw [if_neg enabled] at length
      obtain ⟨window, single⟩ := List.length_eq_one_iff.mp length.1
      rw [if_neg enabled, single]
      rfl
  | amend p superseded successors made =>
    obtain ⟨-, rfl, rfl, rfl, rfl⟩ := commits
    obtain ⟨same, which⟩ := amendMutation_successors (takes_amend idle takes).1
    refine (same.map _).trans ?_
    rcases which with ⟨member, rfl⟩ | ⟨alone, rfl⟩
    · rw [if_pos member, placed]
      intro i w
      unfold amendedMember
      split <;> rfl
    · rw [if_neg (by simp [alone])]
      rfl
  | _ => exact absurd commits id

/-- A commit commits a series as long as its windows if it is one of a series, and none otherwise. -/
theorem committed_series (idle : Idle c) {m : Move} (takes : m.Takes c c') {now : Timestamp}
    {terms : ReservationTerms} {inSeries : Bool} {windows : List Interval}
    {mutation : ReservationMutation}
    (commits : m.Commits c now terms inSeries windows mutation) :
    (inSeries = true → ∃ series, mutation.series = some series ∧
      series.members.length = windows.length) ∧ (inSeries = false → mutation.series = none) := by
  cases m with
  | create p victims =>
    obtain ⟨-, rfl, rfl, rfl, rfl⟩ := commits
    refine ⟨fun enabled => ⟨c.createSeries p, if_pos enabled, ?_⟩, fun off => if_neg (by simp [off])⟩
    unfold createSeries createRecords
    simp [enabled]
  | amend p superseded successors made =>
    obtain ⟨-, rfl, rfl, rfl, rfl⟩ := commits
    have committed := (takes_amend idle takes).1
    unfold amendMutation at committed
    constructor
    · intro member
      rw [if_pos member] at committed ⊢
      unfold amendSeriesMutation at committed
      split at committed
      · cases committed
      · rename_i series known
        split at committed
        · cases committed
        · dsimp only at committed
          split at committed
          · cases committed
          · obtain ⟨rfl, -⟩ := Prod.mk.inj (Except.ok.inj committed)
            exact ⟨_, rfl, by simp [amendedSeries]⟩
    · intro alone
      rw [if_neg (by simp [alone])] at committed
      obtain ⟨rfl, -⟩ := Prod.mk.inj (Except.ok.inj committed)
      rfl
  | _ => exact absurd commits id

/-- The series of a commit has no more members than the policy permits, if the policy permits one. -/
theorem committed_members (idle : Idle c) {m : Move} (takes : m.Takes c c') {now : Timestamp}
    {terms : ReservationTerms} {inSeries : Bool} {windows : List Interval}
    {mutation : ReservationMutation}
    (commits : m.Commits c now terms inSeries windows mutation) :
    (∀ series ∈ mutation.series,
      series.members.length ≤ (c.policyFor terms.policy).1.maxSeriesMembers.val) ↔
    (inSeries = true → terms.recurrence.enabled = false →
      1 ≤ (c.policyFor terms.policy).1.maxSeriesMembers.val) := by
  obtain ⟨listed, single⟩ := committed_series idle takes commits
  have bounded : inSeries = true → ∃ first, expandSeries first terms.recurrence
      (c.policyFor terms.policy).1.maxSeriesMembers.val = .ok windows := by
    intro member
    cases m with
    | create p victims =>
      obtain ⟨-, rfl, -, rfl, -⟩ := commits
      exact ⟨_, takes.1.policy ▸ takes.1.intervals⟩
    | amend p superseded successors made =>
      obtain ⟨-, rfl, rfl, rfl, -⟩ := commits
      rw [if_pos member]
      exact ⟨_, takes.1.policy ▸ takes.1.intervals⟩
    | _ => exact absurd commits id
  cases inSeries with
  | false =>
    rw [single rfl]
    simp
  | true =>
    obtain ⟨series, stored, length⟩ := listed rfl
    obtain ⟨first, expanded⟩ := bounded rfl
    have count := (expandSeries_length expanded).1
    simp only [stored, Option.mem_def, Option.some.injEq, forall_eq', length, forall_true_left]
    by_cases enabled : terms.recurrence.enabled = true
    · simp [enabled, expandSeries_bounded expanded enabled]
    · rw [if_neg enabled] at count
      simp [enabled, count]

/-- **The first window of a create** is checked, at a clock that is not negative. -/
theorem create_first_reaches {p : CreatePlan} (admitted : p.Admitted c) (clock : 0 ≤ p.now.val) :
    p.policy.Reaches p.now p.terms.interval := by
  intro set
  have checked := (PolicyRecord.checkLimits_ok admitted.limits).2 set
  have order := validateInterval_ok (validateTerms_interval admitted.terms)
  have upper := p.terms.interval.start.hi
  have late := p.now.hi
  rw [I64.le_def, I64.val_wrap_of_range (by omega) (by omega)] at checked
  exact checked

/-- **Policy limits.** What a commit registers keeps to the limits of the policy in force exactly if
every window starts within its horizon and, where the commit is an amendment, the terms fit the policy
and it permits a series at all. -/
theorem policy_limits (idle : Idle c) {m : Move} (takes : m.Takes c c') {now : Timestamp}
    {terms : ReservationTerms} {inSeries : Bool} {windows : List Interval}
    {mutation : ReservationMutation}
    (commits : m.Commits c now terms inSeries windows mutation) :
    let policy := (c.policyFor terms.policy).1
    Limited policy now mutation ↔ (∀ w ∈ windows, policy.Reaches now w) ∧
      (m.amends = true → policy.Fits terms ∧
        (inSeries = true → terms.recurrence.enabled = false → 1 ≤ policy.maxSeriesMembers.val)) := by
  intro policy
  have asked := committed_terms idle takes commits
  have counted := committed_members idle takes commits
  -- what is said of all terms that are registered is said of the terms at all windows
  have everywhere : ∀ Q : ReservationTerms → Prop,
      (∀ r ∈ mutation.record :: mutation.members, Q r.terms) ↔
        ∀ w ∈ windows, Q (shifted terms w) := by
    intro Q
    have same : (∀ t ∈ (mutation.record :: mutation.members).map ReservationRecord.terms, Q t) ↔
        ∀ t ∈ windows.map (shifted terms), Q t :=
      ⟨fun h t mem => h t (asked.mem_iff.mpr mem), fun h t mem => h t (asked.mem_iff.mp mem)⟩
    simpa only [List.forall_mem_map] using same
  have some : ∃ w, w ∈ windows := by
    obtain ⟨w, mem, -⟩ := List.mem_map.mp (asked.mem_iff.mp
      (List.mem_map_of_mem (f := ReservationRecord.terms) List.mem_cons_self))
    exact ⟨w, mem⟩
  have fits : ∀ w, policy.Fits (shifted terms w) ↔ policy.Fits terms :=
    fun w => ⟨fun h => ⟨h.amount, h.headroom⟩, fun h => ⟨h.amount, h.headroom⟩⟩
  have whole : Limited policy now mutation ↔ (policy.Fits terms ∧
      (∀ w ∈ windows, policy.Reaches now w)) ∧ ∀ series ∈ mutation.series,
        series.members.length ≤ policy.maxSeriesMembers.val := by
    constructor
    · intro limited
      obtain ⟨w, mem⟩ := some
      exact ⟨⟨(fits w).mp ((everywhere _).mp limited.fits w mem),
        (everywhere fun t => policy.Reaches now t.interval).mp limited.reaches⟩,
        limited.members⟩
    · rintro ⟨⟨fit, reach⟩, members⟩
      exact ⟨(everywhere _).mpr fun w _ => (fits w).mpr fit,
        (everywhere fun t => policy.Reaches now t.interval).mpr reach, members⟩
  rw [whole, counted]
  cases m with
  | create p victims =>
    obtain ⟨-, rfl, rfl, -, -⟩ := commits
    have fit := (PolicyRecord.checkLimits_ok takes.1.limits).1
    rw [takes.1.policy] at fit
    simp only [Move.amends, Bool.false_eq_true, false_implies, and_true]
    refine ⟨fun h => h.1.2, fun reach => ⟨⟨fit, reach⟩, fun enabled off => ?_⟩⟩
    rw [enabled] at off
    cases off
  | amend p superseded successors made =>
    simp only [Move.amends, true_implies]
    exact ⟨fun h => ⟨h.1.2, h.1.1, h.2⟩, fun h => ⟨⟨h.2.1, h.1⟩, h.2.2⟩⟩
  | _ => exact absurd commits id

end Coordinator

namespace System.Sample

/-- The policy of the claims asks for at least 20 bits per second. -/
def floored : Action :=
  { event := .request (.ingestPolicy 2
      { name := FixedName.lit "default", generation := 1, minimumReservationAmount := 20 }
      (context 1 0)) }

/-- A reservation under the policy. -/
def aboveFloor : List Action := [opened 0, floored, ingested, created 1 3 20 30 50]

end System.Sample

open System.Sample in
/-- The commit of the reservation. -/
theorem policy_limits_create :
    ∃ (d d' : Coordinator) (p : Coordinator.CreatePlan) (victims : List IndexEntry),
      (Coordinator.Move.create p victims).Takes d d' ∧
      (Coordinator.Limited (d.policyFor p.terms.policy).1 p.now (d.createMutation p victims) ↔
        (∀ w ∈ p.intervals, (d.policyFor p.terms.policy).1.Reaches p.now w) ∧
        ((Coordinator.Move.create p victims).amends = true →
          (d.policyFor p.terms.policy).1.Fits p.terms ∧
          (p.terms.recurrence.enabled = true → p.terms.recurrence.enabled = false →
            1 ≤ (d.policyFor p.terms.policy).1.maxSeriesMembers.val))) := by
  have up : System.run (aboveFloor.take 3) = .up (System.run (aboveFloor.take 3)).coordinator :=
    System.eq_up (by decide +kernel)
  obtain ⟨fresh, stored⟩ :
      (System.run (aboveFloor.take 3)).coordinator.records[(⟨50, 1⟩ : ReservationKey)]? = none ∧
      ((System.serve (System.run (aboveFloor.take 3)).coordinator
        (.create 3 (context 1 20) (terms 30) 50 false []) []).2.records[
        (⟨50, 1⟩ : ReservationKey)]?).isSome = true := by decide +kernel
  obtain ⟨r, there⟩ := Option.isSome_iff_exists.mp stored
  obtain ⟨d, d', p, victims, -, idle, takes, -⟩ := System.create_registered up fresh there
  exact ⟨d, d', p, victims, takes, Coordinator.policy_limits idle takes ⟨rfl, rfl, rfl, rfl, rfl⟩⟩

open System.Sample in
/-- An amendment takes the reservation below what the policy asks for. -/
theorem amended_below_minimum :
    ¬ ∀ (as : List Action) (c : Coordinator) (now : Timestamp) (context : RequestContext)
      (target : ReservationId) (generation : ReservationGeneration) (terms : ReservationTerms)
      (key : ReservationKey) (r : ReservationRecord), System.run as = .up c →
      c.records[key]? = none →
      (System.serve c (.amend now context target generation terms false) []).2.records[key]? =
        some r →
      (c.policyFor r.terms.policy).1.Fits r.terms := by
  intro claimed
  obtain ⟨c, up, fresh, stored⟩ : ∃ c, System.run aboveFloor = .up c ∧
      c.records[(⟨50, 2⟩ : ReservationKey)]? = none ∧
      ((System.serve c (.amend 4 (context 1 21) 50 1 (terms 5) false) []).2.records[
        (⟨50, 2⟩ : ReservationKey)]?).any (fun r =>
          decide (0 < (c.policyFor r.terms.policy).1.minimumReservationAmount.val ∧
            r.terms.amount < (c.policyFor r.terms.policy).1.minimumReservationAmount)) = true := by
    refine ⟨_, System.eq_up (by decide +kernel), ?_⟩
    decide +kernel
  obtain ⟨r, there, short⟩ := (Option.any_eq_true _ _).mp stored
  obtain ⟨set, below⟩ := of_decide_eq_true short
  exact absurd ((claimed _ c 4 _ _ _ _ _ r up fresh there).amount set) (not_le_of_gt below)

end Brf
