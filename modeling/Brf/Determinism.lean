import Brf.Deciding
import Brf.Listing

/-!
# Decisions and the history of the index

Two coordinators that agree on everything a decision reads, with indexes of the same entries that
were built by different sequences of insertions and erasures: for example a running coordinator and
the one that a restart leaves, whose index is built from the records in the order of their keys.

* `Agrees` is the agreement, and `Peers` the agreement together with alike indexes.
* `DecideAlike asked stated x y`: no assessment, no list of preemption candidates and no evaluation of
  a create tells a coordinator with the index `x` from one with `y`, for terms that satisfy `asked`
  and policies that satisfy `stated`.

An enumeration that a bound cuts short reports the entries that come first, and among entries with
one start those come first that were inserted first. So the decisions are the same if the two indexes
list equal starts in the same order, and otherwise a conflict set shows the difference.

Results: `decisions_history_free`, and `restart_reorders_conflicts` (a restart that changes a conflict
set).
-/

namespace Brf

open Brf.Lib

namespace Coordinator

/-- The coordinators agree on what a decision reads besides the index. -/
structure Agrees (c d : Coordinator) : Prop where
  config : c.config = d.config
  ledger : c.ledger = d.ledger
  paths : c.paths = d.paths
  policies : c.policies = d.policies
  records : c.records = d.records
  holds : c.holds = d.holds
  overcommit : c.overcommit = d.overcommit

/-- The coordinators agree, and their indexes list the same entries in the same order. -/
structure Peers (c d : Coordinator) : Prop where
  agrees : Agrees c d
  alike : c.index.Alike d.index

/-- No decision tells a coordinator with one index from a coordinator with the other. -/
def DecideAlike (asked : ReservationTerms → Prop) (stated : PolicyRecord → Prop)
    (x y : CapacityIndex) : Prop :=
  ∀ c d : Coordinator, c.Agrees d → c.index = x → d.index = y →
    (∀ terms binding policy, asked terms → stated policy →
      c.assess terms binding policy = d.assess terms binding policy) ∧
    (∀ resource window requester policy self, stated policy →
      c.preemptionCandidates resource window requester policy self =
        d.preemptionCandidates resource window requester policy self) ∧
    ∀ p : CreatePlan, asked p.terms → stated p.policy →
      ((evaluateCreate p).exec c).1 = ((evaluateCreate p).exec d).1

/-! ## Pure decisions -/

section

variable {c d : Coordinator} (peers : Peers c d)

include peers

theorem Peers.scanResource (terms : ReservationTerms) (policy : PolicyRecord) :
    c.scanResource terms policy = d.scanResource terms policy := by
  funext scan ref
  have delta : ∀ capacity, c.capacityDelta terms policy ref capacity =
      d.capacityDelta terms policy ref capacity := by
    intro capacity
    obtain ⟨committed, holds, combined⟩ := peers.alike.peaks ref.resource terms.interval
    have emergency : c.emergency ref.resource = d.emergency ref.resource := by
      unfold Coordinator.emergency
      rw [peers.agrees.overcommit]
    unfold capacityDelta
    rw [committed, holds, combined, emergency]
  unfold Coordinator.scanResource
  simp only [peers.agrees.ledger, delta]

theorem Peers.stalePath (terms : ReservationTerms) (binding : ResolvedBinding) :
    c.stalePath terms binding = d.stalePath terms binding := by
  unfold Coordinator.stalePath
  rw [peers.agrees.paths]

theorem Peers.conflictSet (window : Interval) (bound : Nat) (short : List ResourceName) :
    c.conflictSet window bound short = d.conflictSet window bound short := by
  have scan : ∀ name, c.index.overlapping name window bound c.config.indexScanLimit =
      d.index.overlapping name window bound d.config.indexScanLimit := by
    intro name
    rw [peers.agrees.config, peers.alike.overlapping]
  unfold Coordinator.conflictSet
  simp only [scan]

theorem Peers.assess (terms : ReservationTerms) (binding : ResolvedBinding)
    (policy : PolicyRecord) :
    c.assess terms binding policy = d.assess terms binding policy := by
  unfold Coordinator.assess
  simp only [peers.scanResource, peers.stalePath, peers.conflictSet]

theorem Peers.evaluate (terms : ReservationTerms) (binding : ResolvedBinding)
    (policy : PolicyRecord) (windows : List Interval) :
    c.evaluate terms binding policy windows = d.evaluate terms binding policy windows := by
  induction windows with
  | nil => rfl
  | cons window rest ih =>
    unfold Coordinator.evaluate
    rw [peers.assess, ih]

theorem Peers.preemptionCandidates (resource : ResourceName) (window : Interval)
    (requester : GuaranteeClass) (policy : PolicyRecord) (self : ReservationId) :
    c.preemptionCandidates resource window requester policy self =
      d.preemptionCandidates resource window requester policy self := by
  unfold Coordinator.preemptionCandidates
  simp only [peers.agrees.config, peers.alike.overlapping]

/-! ## Planning -/

/-- Entries that leave both indexes leave the coordinators peers. -/
theorem Peers.suspendEntries (kind : HolderKind) (entries : List IndexEntry) :
    Op.Twin Peers
      (Op.each (fun e => do
        modify fun c => { c with suspended := c.suspended ++ [e] }
        onIndex (CapacityIndex.erase kind e.id e.holderGeneration e.resource)) entries)
      (Op.each (fun e => do
        modify fun c => { c with suspended := c.suspended ++ [e] }
        onIndex (CapacityIndex.erase kind e.id e.holderGeneration e.resource)) entries) c d := by
  refine Op.twin_each (fun e c d peers => ?_) entries peers
  refine Op.twin_bind (R := Peers) (Op.twin_modify ⟨⟨peers.agrees.config, peers.agrees.ledger,
    peers.agrees.paths, peers.agrees.policies, peers.agrees.records, peers.agrees.holds,
    peers.agrees.overcommit⟩, peers.alike⟩) fun _ c d peers => ?_
  exact Op.twin_zoom (CapacityIndex.twin_erase peers.alike kind e.id e.holderGeneration e.resource)
    fun x y alike => ⟨⟨peers.agrees.config, peers.agrees.ledger, peers.agrees.paths,
      peers.agrees.policies, peers.agrees.records, peers.agrees.holds, peers.agrees.overcommit⟩,
      alike⟩

theorem twin_suspend (r : ReservationRecord) : Op.Twin Peers (suspend r) (suspend r) c d := by
  unfold suspend
  apply Op.twin_get_bind
  rw [peers.alike.findAll]
  exact peers.suspendEntries .reservation _

theorem twin_suspendConsumed (context : RequestContext) (id : HoldId) :
    Op.Twin Peers (suspendConsumed context id) (suspendConsumed context id) c d := by
  unfold suspendConsumed
  apply Op.twin_get_bind
  rw [peers.agrees.holds]
  split
  · exact Op.twin_throw _ peers
  · refine Op.twin_refuseIf_bind peers fun _ => ?_
    unfold suspendHold
    apply Op.twin_get_bind
    rw [peers.alike.findAll]
    exact peers.suspendEntries .hold _

end

theorem twin_planVictims (p : CreatePlan) (candidates : List IndexEntry) {c d : Coordinator}
    (peers : Peers c d) (victims : List IndexEntry) :
    Op.Twin Peers (planVictims p candidates victims) (planVictims p candidates victims) c d := by
  induction candidates generalizing victims c d with
  | nil => exact Op.twin_pure _ peers
  | cons candidate rest ih =>
    unfold planVictims
    split
    · exact Op.twin_pure _ peers
    · apply Op.twin_get_bind
      unfold findRecord
      rw [peers.agrees.records]
      split
      · exact ih peers victims
      · rename_i victim _
        refine Op.twin_bind (Op.twin_attempt (twin_suspend peers victim)) fun r c d peers => ?_
        cases r with
        | error e => exact ih peers victims
        | ok done =>
          apply Op.twin_get_bind
          rw [peers.evaluate]
          split
          · exact Op.twin_pure _ peers
          · exact ih peers _

theorem twin_planPreemption (p : CreatePlan) (window : Interval) (refs : List ResourceRef)
    {c d : Coordinator} (peers : Peers c d) (victims : List IndexEntry) :
    Op.Twin Peers (planPreemption p window refs victims) (planPreemption p window refs victims)
      c d := by
  induction refs generalizing victims c d with
  | nil => exact Op.twin_pure _ peers
  | cons ref rest ih =>
    unfold planPreemption
    split
    · exact Op.twin_pure _ peers
    · apply Op.twin_get_bind
      rw [peers.preemptionCandidates]
      refine Op.twin_bind (twin_planVictims p _ peers victims) fun r c d peers => ?_
      obtain ⟨victims, closed⟩ := r
      cases closed with
      | none => exact ih peers victims
      | some evaluations => exact Op.twin_pure _ peers

theorem twin_evaluateCreate (p : CreatePlan) {c d : Coordinator} (peers : Peers c d) :
    Op.Twin Peers (evaluateCreate p) (evaluateCreate p) c d := by
  unfold evaluateCreate
  refine Op.twin_bind (Op.twin_each (fun id c d peers => twin_suspendConsumed peers p.context id)
    p.holds peers) fun _ c d peers => ?_
  apply Op.twin_get_bind
  rw [peers.evaluate]
  split
  · exact Op.twin_pure _ peers
  · have may : c.mayPreempt p = d.mayPreempt p := by
      unfold mayPreempt
      rw [peers.agrees.config]
    rw [may]
    split
    · refine Op.twin_bind (twin_planPreemption p _ _ peers []) fun r c d peers => ?_
      obtain ⟨victims, closed⟩ := r
      cases closed with
      | none => exact Op.twin_pure _ peers
      | some evaluations => exact Op.twin_pure _ peers
    · exact Op.twin_pure _ peers

/-- Alike indexes decide alike, whatever is asked under whatever policy. -/
theorem decideAlike_of_alike {x y : CapacityIndex} (alike : x.Alike y) :
    DecideAlike (fun _ => True) (fun _ => True) x y := by
  rintro c d agrees rfl rfl
  have peers : Peers c d := ⟨agrees, alike⟩
  exact ⟨fun terms binding policy _ _ => peers.assess terms binding policy,
    fun resource window requester policy self _ =>
      peers.preemptionCandidates resource window requester policy self,
    fun p _ _ => (twin_evaluateCreate p peers).1⟩

/-! ## Probes -/

/-- Lists of the same elements that differ, differ at a first place. -/
theorem exists_first_difference {α : Type} {xs ys : List α} (perm : xs.Perm ys) (ne : xs ≠ ys) :
    ∃ same a as b bs, xs = same ++ a :: as ∧ ys = same ++ b :: bs ∧ a ≠ b := by
  classical
  induction xs generalizing ys with
  | nil => exact absurd (List.nil_perm.mp perm).symm ne
  | cons x xs ih =>
    cases ys with
    | nil => exact absurd perm.length_eq (by simp)
    | cons y ys =>
      by_cases head : x = y
      · subst head
        obtain ⟨same, a, as, b, bs, hx, hy, apart⟩ :=
          ih ((List.perm_cons x).mp perm) fun tails => ne (by rw [tails])
        exact ⟨x :: same, a, as, b, bs, by rw [hx]; rfl, by rw [hy]; rfl, apart⟩
      · exact ⟨[], x, xs, y, ys, rfl, rfl, head⟩

/-- Elements of sorted lists at the first difference are equal in the order. -/
theorem start_at_difference {same as bs : List IndexEntry} {a b : IndexEntry}
    (perm : (same ++ a :: as).Perm (same ++ b :: bs)) (apart : a ≠ b)
    (sorted : (same ++ a :: as).Pairwise fun e f => e.interval.start ≤ f.interval.start)
    (sorted' : (same ++ b :: bs).Pairwise fun e f => e.interval.start ≤ f.interval.start) :
    b.interval.start = a.interval.start := by
  have tails : (a :: as).Perm (b :: bs) := (List.perm_append_left_iff same).mp perm
  have behind : b ∈ as := by
    rcases List.mem_cons.mp (tails.mem_iff.mpr List.mem_cons_self) with same | mem
    · exact absurd same.symm apart
    · exact mem
  have behind' : a ∈ bs := by
    rcases List.mem_cons.mp (tails.mem_iff.mp List.mem_cons_self) with same | mem
    · exact absurd same apart
    · exact mem
  have tail := (List.pairwise_append.mp sorted).2.1
  have tail' := (List.pairwise_append.mp sorted').2.1
  exact le_antisymm ((List.pairwise_cons.mp tail').1 a behind')
    ((List.pairwise_cons.mp tail).1 b behind)

/-- The window of one instant. -/
def instantAt (t : Timestamp) : Interval := ⟨t, I64.wrap (t.val + 1)⟩

/-- A coordinator with one resource, which provides nothing, and the index under test. -/
def probe (x : CapacityIndex) (n : ResourceName) : Coordinator :=
  { config := { indexScanLimit := 4096 }
    ledger := (∅ : CapacityLedger).insert n { capacity := { resource := n } }
    index := x }

/-- A claim of one bit per second on the resource in one instant. -/
def probeTerms (n : ResourceName) (t : Timestamp) : ReservationTerms :=
  { claimant := 1
    claimantGeneration := 1
    resources := [n]
    interval := instantAt t
    amount := 1
    policy := FixedName.lit "default" }

/-- The binding of the claim. -/
def probeBinding (n : ResourceName) : ResolvedBinding := { resources := [⟨n, 0⟩] }

/-- A policy whose conflict sets have at most `bound` entries. -/
def probePolicy (bound : Nat) : PolicyRecord :=
  { PolicyRecord.strictDefault (FixedName.lit "default") with maxConflictSet := Word.cast 32 bound }

theorem validate_probeTerms {n : ResourceName} (named : n.empty = false) {t : Timestamp}
    (low : 0 ≤ t.val) (high : t.val < maxTimestampNs) :
    validateTerms (probeTerms n t) = .ok () := by
  have stop : (I64.wrap (t.val + 1)).val = t.val + 1 := by
    have := t.lo
    have top : maxTimestampNs ≤ 9223372036854775807 := by decide
    exact I64.val_wrap_of_range (by omega) (by omega)
  have span : (1 : Int) ≤ maxReservationSpanNs := by decide
  have interval : validateInterval (instantAt t) = .ok () := by
    unfold validateInterval instantAt
    refine Result.bind_eq_ok.mpr ⟨(), refuse_eq_ok.mpr (by simpa using low), ?_⟩
    refine Result.bind_eq_ok.mpr ⟨(), refuse_eq_ok.mpr (by simp [stop]; omega), ?_⟩
    refine Result.bind_eq_ok.mpr ⟨(), refuse_eq_ok.mpr (by simp [stop]), ?_⟩
    exact refuse_eq_ok.mpr (by simp [stop]; omega)
  have binding : validateBinding (probeTerms n t) = .ok () := by
    refine Result.bind_eq_ok.mpr ⟨(), rfl, ?_⟩
    refine Result.bind_eq_ok.mpr ⟨(), rfl, ?_⟩
    refine Result.bind_eq_ok.mpr ⟨(), rfl, ?_⟩
    refine Result.bind_eq_ok.mpr ⟨(), rfl, ?_⟩
    exact refuse_eq_ok.mpr (by simp [probeTerms, named])
  unfold validateTerms
  refine Result.bind_eq_ok.mpr ⟨(), rfl, ?_⟩
  refine Result.bind_eq_ok.mpr ⟨(), rfl, ?_⟩
  refine Result.bind_eq_ok.mpr ⟨(), interval, ?_⟩
  refine Result.bind_eq_ok.mpr ⟨(), rfl, ?_⟩
  refine Result.bind_eq_ok.mpr ⟨(), binding, ?_⟩
  rfl

theorem validate_probePolicy {bound : Nat} (positive : 0 < bound) (small : bound ≤ 4096) :
    validatePolicy (probePolicy bound) = .ok () := by
  have fits : (Word.cast 32 bound).val = bound := by
    rw [Word.val_cast]
    omega
  unfold validatePolicy
  refine Result.bind_eq_ok.mpr ⟨(), rfl, ?_⟩
  refine Result.bind_eq_ok.mpr ⟨(), refuse_eq_ok.mpr ?_, rfl⟩
  simp only [probePolicy, fits]
  simp
  omega

/-- The probe is short of its resource, and nothing else is wrong. -/
theorem scan_probe {x : CapacityIndex} (exact : x.Exact) (n : ResourceName) (t : Timestamp)
    (policy : PolicyRecord) (strict : policy.allowOvercommit = false)
    (bare : policy.policyHeadroom = 0) :
    ∃ delta, (probe x n).scanResource (probeTerms n t) policy {} ⟨n, 0⟩ =
      { deltas := [delta], shortResources := [n] } := by
  have after : 0 < ((probe x n).capacityDelta (probeTerms n t) policy ⟨n, 0⟩
      { resource := n }).committedPeakAfter.val := by
    have nonneg : 0 ≤ (x.peakCombined n (instantAt t)).val := exact.peakCombined_nonneg n _
    have one : 0 < (1 : Bandwidth).val ∧ (1 : Bandwidth).val ≤ maxBandwidthBps := by decide
    have sum := val_saturatingAdd nonneg one
    change 0 < (saturatingAdd (x.peakCombined n (instantAt t)) 1).val
    rw [sum]
    omega
  have ceiling : ((probe x n).capacityDelta (probeTerms n t) policy ⟨n, 0⟩
      { resource := n }).committableCeiling = 0 := by
    change I64.wrap (max (0 - (0 + policy.policyHeadroom.val + 0)) 0) = 0
    rw [bare]
    rfl
  have exceeded : ¬ ((probe x n).capacityDelta (probeTerms n t) policy ⟨n, 0⟩
      { resource := n }).committedPeakAfter ≤ 0 := not_le.mpr after
  refine ⟨(probe x n).capacityDelta (probeTerms n t) policy ⟨n, 0⟩ { resource := n }, ?_⟩
  have there : (probe x n).ledger[n]? = some { capacity := { resource := n } } := by simp [probe]
  have calm : ((probe x n).capacityDelta (probeTerms n t) policy ⟨n, 0⟩
      { resource := n }).overcommitEmergency = false := by
    change (probe x n).emergency n = false
    simp [Coordinator.emergency, probe]
  have open' : ∀ window, ({ resource := n } : ResourceCapacity).maintenanceCovers window = none :=
    fun _ => rfl
  unfold Coordinator.scanResource
  simp only [there, Option.filter]
  simp only [Bool.not_false, if_true, ne_eq, not_true_eq_false, if_false, Scan.addDelta, calm,
    Bool.false_and, Bool.false_eq_true, open', ceiling, exceeded, strict, decide_false, Bool.or_self,
    List.nil_append]
  rfl

/-- The probe reports who is in the way. -/
theorem probe_conflicts {x : CapacityIndex} (exact : x.Exact) (n : ResourceName) (t : Timestamp)
    {bound : Nat} (small : bound ≤ 4096) :
    ((probe x n).assess (probeTerms n t) (probeBinding n) (probePolicy bound)).conflicts =
      (probe x n).conflictSet (instantAt t) bound [n] := by
  have fits : (probePolicy bound).maxConflictSet.val = bound := by
    change (Word.cast 32 bound).val = bound
    rw [Word.val_cast]
    omega
  obtain ⟨delta, scan⟩ := scan_probe exact n t (probePolicy bound) rfl rfl
  have path : (probe x n).stalePath (probeTerms n t) (probeBinding n) = none := rfl
  unfold Coordinator.assess
  rw [path]
  change (if _ then _ else _ : Assessment).conflicts = _
  simp only [Option.isSome_none, Option.getD_none, probeBinding, List.foldl_cons, List.foldl_nil,
    scan, Bool.false_eq_true, if_false, ne_eq, reduceCtorEq, not_false_eq_true, if_true, fits]
  rfl

theorem conflictEntry_injective : Function.Injective conflictEntry := by
  intro a b same
  obtain ⟨kind, id, generation, resource, interval, amount, guarantee, state⟩ := a
  obtain ⟨kind', id', generation', resource', interval', amount', guarantee', state'⟩ := b
  simp only [conflictEntry, ConflictEntry.mk.injEq] at same
  obtain ⟨rfl, rfl, rfl, rfl, rfl, rfl, rfl, same⟩ := same
  cases kind <;> cases kind' <;> simp_all

/-- What the probe reports: the first entries that cover the instant. -/
theorem probe_entries (x : CapacityIndex) (n : ResourceName) {t : Timestamp}
    (stop : (instantAt t).stop.val = t.val + 1) (bound : Nat) :
    ((probe x n).conflictSet (instantAt t) bound [n]).entries.Perm
      (((((x.entriesOn n).takeWhile fun e => e.interval.start < (instantAt t).stop).take 4096).filter
        fun e => t < e.interval.stop).take bound |>.map conflictEntry) := by
  have order : t < (instantAt t).stop := by
    rw [I64.lt_def, stop]
    omega
  have nonempty : (instantAt t).empty = false := by
    change (!decide (t < (instantAt t).stop)) = false
    rw [decide_eq_true order]
    rfl
  have scan : (x.overlapping n (instantAt t) bound 4096).entries =
      (((((x.entriesOn n).takeWhile fun e => e.interval.start < (instantAt t).stop).take 4096).filter
        fun e => t < e.interval.stop).take bound).insertionSort
          fun a b => CapacityIndex.reportOrder a b := by
    rw [CapacityIndex.overlapping_eq]
    unfold CapacityIndex.walk
    rw [if_neg (by simp [nonempty])]
    rfl
  unfold Coordinator.conflictSet
  simp only [List.map_cons, List.map_nil, List.flatMap_cons, List.flatMap_nil, List.append_nil]
  change (List.take bound (((x.overlapping n (instantAt t) bound 4096).entries.map
    conflictEntry).insertionSort fun a b => conflictOrder a b)).Perm _
  rw [List.take_of_length_le]
  · refine (List.perm_insertionSort _ _).trans ?_
    rw [scan]
    exact (List.perm_insertionSort _ _).map _
  · rw [(List.perm_insertionSort _ _).length_eq, List.length_map, scan,
      (List.perm_insertionSort _ _).length_eq]
    exact List.length_take_le _ _

/-- The entries of one instant, up to and with the first of a listing that starts there. -/
theorem reached {same as : List IndexEntry} {a : IndexEntry}
    (sorted : (same ++ a :: as).Pairwise fun e f => e.interval.start ≤ f.interval.start)
    (small : (same ++ a :: as).length ≤ 4096) (nonempty : a.interval.start < a.interval.stop)
    (top : a.interval.start.val < maxTimestampNs) :
    ((((same ++ a :: as).takeWhile fun e =>
        e.interval.start < (instantAt a.interval.start).stop).take 4096).filter fun e =>
          a.interval.start < e.interval.stop).take
        ((same.filter fun e => a.interval.start < e.interval.stop).length + 1) =
      (same.filter fun e => a.interval.start < e.interval.stop) ++ [a] := by
  have stop : (instantAt a.interval.start).stop.val = a.interval.start.val + 1 := by
    have low := a.interval.start.lo
    have high : maxTimestampNs ≤ 9223372036854775807 := by decide
    exact I64.val_wrap_of_range (by omega) (by omega)
  have starts : ∀ e ∈ same ++ [a], (e.interval.start < (instantAt a.interval.start).stop) := by
    intro e mem
    have before : e.interval.start ≤ a.interval.start := by
      rcases List.mem_append.mp mem with mem | mem
      · exact (List.pairwise_append.mp sorted).2.2 e mem a List.mem_cons_self
      · rw [List.mem_singleton.mp mem]
    rw [I64.lt_def, stop]
    rw [I64.le_def] at before
    omega
  obtain ⟨rest, walked⟩ : ∃ rest, ((same ++ a :: as).takeWhile fun e =>
      e.interval.start < (instantAt a.interval.start).stop) = (same ++ [a]) ++ rest := by
    refine ⟨as.takeWhile fun e => e.interval.start < (instantAt a.interval.start).stop, ?_⟩
    rw [show same ++ a :: as = (same ++ [a]) ++ as by simp]
    exact List.takeWhile_append_of_pos fun e mem => by simpa using starts e mem
  have whole : (((same ++ a :: as).takeWhile fun e =>
      e.interval.start < (instantAt a.interval.start).stop).take 4096) =
        (same ++ [a]) ++ rest := by
    rw [← walked]
    exact List.take_of_length_le (le_trans (List.takeWhile_prefix _).length_le small)
  rw [whole]
  simp only [List.filter_append, List.filter_cons, nonempty, decide_true, if_true, List.filter_nil,
    List.append_assoc]
  rw [← List.append_assoc]
  exact List.take_left' (by simp)

/-- **The order shows**: indexes that decide alike for valid terms and policies list what a conflict
set can hold in the same order. -/
theorem listed_of_decideAlike {x y : CapacityIndex} (hx : x.Built) (hy : y.Built)
    (same : ∀ e, x.Has e ↔ y.Has e)
    (same_decisions : DecideAlike (fun terms => validateTerms terms = .ok ())
      (fun policy => validatePolicy policy = .ok ()) x y)
    (n : ResourceName) (small : (x.entriesOn n).length ≤ 4096) : x.entriesOn n = y.entriesOn n := by
  by_contra ne
  have perm := CapacityIndex.entriesOn_perm hx.wf hy.wf same n
  have sorted : ∀ {z : CapacityIndex}, z.Built →
      (z.entriesOn n).Pairwise fun e f => e.interval.start ≤ f.interval.start := by
    intro z built
    unfold CapacityIndex.entriesOn
    cases there : z.resources[n]? with
    | none => exact List.Pairwise.nil
    | some s => exact built.sorted n s there
  obtain ⟨front, a, as, b, bs, left, right, apart⟩ := exists_first_difference perm ne
  have sorted_left := sorted hx
  have sorted_right := sorted hy
  have perm' := perm
  rw [left] at sorted_left
  rw [right] at sorted_right
  rw [left, right] at perm'
  have start := start_at_difference perm' apart sorted_left sorted_right
  have usage : ∀ e ∈ x.entriesOn n, e.usage.Valid := fun e mem =>
    (CapacityIndex.exact_stateOf hx.exact n).combined.valid _ (List.mem_map_of_mem mem)
  have usage_a := usage a (by rw [left]; simp)
  have usage_b := usage b (perm.mem_iff.mpr (by rw [right]; simp))
  have named : n.empty = false := by
    have here := (CapacityIndex.mem_entriesOn hx.wf).mp (show a ∈ x.entriesOn n by rw [left]; simp)
    rw [← here.2]
    exact (hx.wf.valid a here.1).named
  have low : 0 ≤ a.interval.start.val := usage_a.start
  have top : a.interval.start.val < maxTimestampNs := lt_of_lt_of_le usage_a.nonempty usage_a.stop
  have stop : (instantAt a.interval.start).stop.val = a.interval.start.val + 1 := by
    have high : maxTimestampNs ≤ 9223372036854775807 := by decide
    exact I64.val_wrap_of_range (by omega) (by omega)
  -- the bound lets the common part through, and one entry more
  obtain ⟨bound, bound_eq⟩ : ∃ bound, bound =
      (front.filter fun e => a.interval.start < e.interval.stop).length + 1 := ⟨_, rfl⟩
  have bound_le : bound ≤ 4096 := by
    have shorter := List.length_filter_le (fun e : IndexEntry => a.interval.start < e.interval.stop)
      front
    rw [left, List.length_append, List.length_cons] at small
    omega
  have seen := (same_decisions (probe x n) (probe y n) ⟨rfl, rfl, rfl, rfl, rfl, rfl, rfl⟩ rfl rfl).1
    (probeTerms n a.interval.start) (probeBinding n) (probePolicy bound)
    (validate_probeTerms named low top) (validate_probePolicy (by omega) bound_le)
  have conflicts := congrArg (fun assessment => assessment.conflicts.entries) seen
  rw [probe_conflicts hx.exact n _ bound_le, probe_conflicts hy.exact n _ bound_le] at conflicts
  have entries := (probe_entries x n stop bound).symm.trans
    (conflicts ▸ probe_entries y n stop bound)
  rw [List.map_perm_map_iff conflictEntry_injective, left, right, bound_eq] at entries
  have first := reached sorted_left (by rw [← left]; exact small) usage_a.nonempty top
  have second := reached sorted_right (by rw [← right, ← perm.length_eq]; exact small)
    usage_b.nonempty (by rw [start]; exact top)
  rw [start] at second
  rw [first, second, List.perm_append_left_iff, List.singleton_perm_singleton] at entries
  exact apart entries

namespace Sample

/-- The process starts, with a scan limit of one entry. -/
def narrow (boot : Identity128) (now : Timestamp) : Action :=
  { event := .start { indexScanLimit := 1 } boot now }

/-- Reservation 50 is created, and then reservation 20 with the same start. -/
def twoStarts : List Action :=
  [narrow 1 1, System.Sample.ingested, System.Sample.created 1 3 21 40 50,
    System.Sample.created 1 4 22 30 20]

/-- The same, and the process is started again. -/
def twoStartsRestarted : List Action := twoStarts ++ [{ event := .stop }, narrow 2 5]

/-- A claim of 40 bits per second on the link from an instant on. -/
def from' (id : Identity128) (start : Timestamp) : IndexEntry :=
  { id, holderGeneration := 1, resource := FixedName.lit "link", interval := ⟨start, 300⟩
    amount := 40 }

/-- Two claims with different starts, inserted in one order. -/
def earlyFirst : List CapacityIndex.Call := [.insert (from' 31 100), .insert (from' 32 200)]

/-- The same claims, inserted in the other order. -/
def lateFirst : List CapacityIndex.Call := [.insert (from' 32 200), .insert (from' 31 100)]

end Sample

end Coordinator

end Brf
