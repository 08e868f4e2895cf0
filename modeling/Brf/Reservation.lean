import Brf.Capacity
import Brf.Policy

/-!
# Reservations

Model of `include/brf/reservation.hpp` and `src/reservation.cpp`: states, terms, records, series and
the deterministic expansion of a series into members.

* `consumesCapacity` and `isTerminal` are the two predicates on states everything else rests on.
* `ReservationRecord.consumingInterval` is the interval a record occupies; a recall shortens it to
  the effect instant plus the grace. The addition is the source's unchecked `int64_t` addition.
* `validateTerms` is the structural check of a request; `expandSeries` the member intervals.

Out of scope: the textual spelling of states, and `operator==` of records, which nothing calls.
-/

namespace Brf

open Brf.Lib

/-- `ReservationState`. -/
inductive ReservationState where
  | declared | validated | pending | committed | active | amendmentPending | recallPending
  | released | expired | revoked | fenced | stale | superseded | rejected | retired
  deriving DecidableEq, Repr, Inhabited

instance : Enumeration ReservationState where
  all := [.declared, .validated, .pending, .committed, .active, .amendmentPending, .recallPending,
    .released, .expired, .revoked, .fenced, .stale, .superseded, .rejected, .retired]
  complete x := by cases x <;> decide

/-- `consumes_capacity`: the single predicate the accounting layer trusts. -/
def consumesCapacity : ReservationState → Bool
  | .committed | .active | .recallPending => true
  | _ => false

/-- `is_terminal`: no further authority-bearing transition is legal. -/
def isTerminal : ReservationState → Bool
  | .released | .expired | .revoked | .fenced | .stale | .superseded | .rejected | .retired => true
  | _ => false

/-- A state that consumes capacity is not terminal. -/
theorem not_terminal_of_consumes {s : ReservationState} (h : consumesCapacity s = true) :
    isTerminal s = false := by
  cases s <;> simp_all [consumesCapacity, isTerminal]

/-- `Applicability`: whether the generations a record is bound to are still in force. -/
inductive Applicability where
  | current | revalidationRequired | stale
  deriving DecidableEq, Repr, Inhabited

instance : Enumeration Applicability where
  all := [.current, .revalidationRequired, .stale]
  complete x := by cases x <;> decide

/-- `ApplicabilityReason`. -/
inductive ApplicabilityReason where
  | current | resourceGenerationChanged | resourceWithdrawn | pathGenerationChanged | pathRetired
  | maintenanceWindowAdded | policyMaterialChange | failureDomainGenerationChanged
  | capacityReducedBelowCommitments
  deriving DecidableEq, Repr, Inhabited

instance : Enumeration ApplicabilityReason where
  all := [.current, .resourceGenerationChanged, .resourceWithdrawn, .pathGenerationChanged,
    .pathRetired, .maintenanceWindowAdded, .policyMaterialChange, .failureDomainGenerationChanged,
    .capacityReducedBelowCommitments]
  complete x := by cases x <;> decide

/-- `RecurrenceSpec`. -/
structure RecurrenceSpec where
  enabled : Bool := false
  period : Duration := 0
  count : Word 32 := 1
  deriving DecidableEq, Repr, Inhabited

/-- `ReservationTerms`: everything an admission decision needs. -/
structure ReservationTerms where
  claimant : ClaimantId := 0
  claimantGeneration : ClaimantGeneration := 0
  bindingKind : BindingKind := .resources
  resources : List ResourceName := []
  path : PathName := default
  /-- Zero means "current at admission". -/
  requiredPathGeneration : PathAuthorityGeneration := 0
  interval : Interval := {}
  amount : Bandwidth := 0
  minimumAmount : Option Bandwidth := none
  maximumAmount : Option Bandwidth := none
  guarantee : GuaranteeClass := .guaranteed
  priority : Word 32 := 0
  preemptible : Bool := false
  recallPermitted : Bool := false
  grace : Duration := 0
  headroomRequirement : Bandwidth := 0
  policy : PolicyName := default
  policyLabels : List Text := []
  recurrence : RecurrenceSpec := {}
  deriving DecidableEq, Repr, Inhabited

/-! ## Structural validation -/

/-- `label_is_safe`: non-empty bounded printable ASCII. -/
def labelIsSafe (label : Text) : Bool :=
  !label.isEmpty && label.length ≤ maxLabelBytes &&
    label.all fun b => 0x20 ≤ b.val && b.val ≤ 0x7E

/-- The amount bounds of `validate_terms`. -/
def validateAmounts (t : ReservationTerms) : Result Unit := do
  refuse (t.amount.val ≤ 0) .invalidBandwidth "reservation amount must be strictly positive"
  refuse (maxBandwidthBps < t.amount.val) .invalidBandwidth
    "reservation amount exceeds the representable range"
  if let some minimum := t.minimumAmount then
    refuse (minimum.val ≤ 0 || maxBandwidthBps < minimum.val) .invalidBandwidth
      "minimum amount is out of range"
    refuse (t.amount.val < minimum.val) .invalidBandwidth
      "minimum amount exceeds the requested amount"
  if let some maximum := t.maximumAmount then
    refuse (maximum.val ≤ 0 || maxBandwidthBps < maximum.val) .invalidBandwidth
      "maximum amount is out of range"
    refuse (maximum.val < t.amount.val) .invalidBandwidth
      "maximum amount is below the requested amount"
  refuse (t.headroomRequirement.val < 0 || maxBandwidthBps < t.headroomRequirement.val)
    .invalidBandwidth "headroom requirement is out of range"

/-- The binding part of `validate_terms`: a resource set or a path, not both. -/
def validateBinding (t : ReservationTerms) : Result Unit :=
  match t.bindingKind with
  | .resources => do
    refuse t.resources.isEmpty .invalidArgument "a resource binding must name at least one resource"
    refuse (maxBindingResources < t.resources.length) .resourceExhausted
      "resource binding exceeds the maximum width"
    refuse (!t.path.empty) .invalidArgument "a resource binding must not carry a path name"
    refuse (hasAdjacentEqual (sorted t.resources)) .conflict
      "resource binding names the same resource twice"
    refuse (t.resources.any FixedName.empty) .invalidName
      "resource binding contains an empty name"
  | .path => do
    refuse t.path.empty .invalidName "a path binding must name a path"
    refuse (!t.resources.isEmpty) .invalidArgument
      "a path binding must not pre-declare resources; components come from path authority"

/-- The recurrence part of `validate_terms`; a disabled recurrence is not looked at. -/
def validateRecurrence (r : RecurrenceSpec) : Result Unit :=
  if r.enabled then do
    refuse (r.count.val < 1) .invalidArgument "a recurrence series must have at least one member"
    refuse (1 < r.count.val && r.period.val ≤ 0) .invalidArgument
      "a recurring series must have a positive period"
    refuse (r.period.val < 0) .invalidArgument "recurrence period must not be negative"
  else pure ()

/-- `validate_terms`. -/
def validateTerms (t : ReservationTerms) : Result Unit := do
  refuse (t.claimant.isNil) .invalidIdentity "claimant identity must not be nil"
  refuse (t.claimantGeneration.val = 0) .invalidIdentity "claimant generation must be non-zero"
  validateInterval t.interval
  validateAmounts t
  validateBinding t
  refuse t.policy.empty .invalidName "reservation terms must name a policy"
  refuse (maxPriority < t.priority.val) .invalidArgument "priority is out of range"
  refuse (t.guarantee = .guaranteed && t.preemptible) .conflict
    "a guaranteed reservation cannot be preemptible"
  refuse (t.grace.val < 0 || maxReservationSpanNs < t.grace.val) .invalidInterval
    "grace interval is out of range"
  refuse (maxPolicyLabels < t.policyLabels.length) .resourceExhausted "too many policy labels"
  refuse (!t.policyLabels.all labelIsSafe) .invalidArgument
    "policy label is empty, too long, or not printable ASCII"
  validateRecurrence t.recurrence

/-! ## Records -/

/-- `ReservationRecord`: a durable, generation-stamped reservation. -/
structure ReservationRecord where
  id : ReservationId := 0
  generation : ReservationGeneration := 0
  seriesMember : Bool := false
  series : ReservationSeriesId := 0
  seriesIndex : SeriesIndex := 0
  terms : ReservationTerms := {}
  authority : AuthorityVector := {}
  state : ReservationState := .declared
  applicability : Applicability := .current
  applicabilityReason : ApplicabilityReason := .current
  declaredAt : Timestamp := 0
  committedAt : Timestamp := 0
  activatedAt : Timestamp := 0
  stateChangedAt : Timestamp := 0
  /-- Zero when no recall is pending or effective. -/
  recallEffectiveAt : Timestamp := 0
  recallGrace : Duration := 0
  terminatedAt : Timestamp := 0
  predecessor : ReservationId := 0
  predecessorGeneration : ReservationGeneration := 0
  stateReason : Text := []
  lastProvenance : Provenance := {}
  sequence : DurableSequence := 0
  deriving DecidableEq, Repr, Inhabited

namespace ReservationRecord

/-- `ReservationRecord::consumes`. -/
def consumes (r : ReservationRecord) : Bool :=
  consumesCapacity r.state && r.applicability != .stale

/-- `ReservationRecord::consuming_interval`: a recall shortens the interval, through its grace. -/
def consumingInterval (r : ReservationRecord) : Interval :=
  let window := r.terms.interval
  if 0 < r.recallEffectiveAt.val && r.recallEffectiveAt < window.stop then
    let releasedAt := I64.wrap (r.recallEffectiveAt.val + r.recallGrace.val)
    let effectiveEnd := if window.stop < releasedAt then window.stop else releasedAt
    { window with stop := if effectiveEnd < window.start then window.start else effectiveEnd }
  else window

theorem consumingInterval_start (r : ReservationRecord) :
    r.consumingInterval.start = r.terms.interval.start := by
  simp only [consumingInterval]
  split <;> rfl

/-- A record never consumes outside its terms' interval. -/
theorem consumingInterval_stop_le (r : ReservationRecord)
    (h : r.terms.interval.start ≤ r.terms.interval.stop) :
    r.consumingInterval.stop ≤ r.terms.interval.stop := by
  simp only [consumingInterval]
  split_ifs
  all_goals first
    | exact h
    | exact le_rfl
    | exact le_of_not_gt ‹_›

end ReservationRecord

/-- `SupersessionEdge`: lineage from a generation to the one that replaced it. -/
structure SupersessionEdge where
  predecessor : ReservationId := 0
  predecessorGeneration : ReservationGeneration := 0
  successor : ReservationId := 0
  successorGeneration : ReservationGeneration := 0
  recordedAt : Timestamp := 0
  sequence : DurableSequence := 0
  reason : Text := []
  deriving DecidableEq, Repr, Inhabited

/-- `ReservationSeries`: reservations admitted together. -/
structure ReservationSeries where
  id : ReservationSeriesId := 0
  generation : SeriesGeneration := 0
  claimant : ClaimantId := 0
  claimantGeneration : ClaimantGeneration := 0
  spec : RecurrenceSpec := {}
  firstInterval : Interval := {}
  amount : Bandwidth := 0
  state : ReservationState := .declared
  createdAt : Timestamp := 0
  stateChangedAt : Timestamp := 0
  predecessorSeriesGeneration : ReservationId := 0
  predecessorGeneration : SeriesGeneration := 0
  members : List ReservationId := []
  lastProvenance : Provenance := {}
  sequence : DurableSequence := 0
  deriving DecidableEq, Repr, Inhabited

/-! ## Series -/

/-- The members of `expand_series` from index `i` on. -/
def expandMembers (first : Interval) (period : Duration) (span : Int) :
    Nat → Nat → Result (List Interval)
  | 0, _ => .ok []
  | remaining + 1, i => do
    let start := first.start.val + (i : Int) * period.val
    refuse (maxTimestampNs < start || maxTimestampNs - start < span) .overflow
      "series member interval overflows the fabric timeline"
    let member : Interval := ⟨I64.wrap start, I64.wrap (start + span)⟩
    validateInterval member
    let rest ← expandMembers first period span remaining (i + 1)
    pure (member :: rest)

/-- `expand_series`: member `i` starts at `first.start + i * period`. -/
def expandSeries (first : Interval) (spec : RecurrenceSpec) (maxMembers : Nat) :
    Result (List Interval) :=
  if !spec.enabled then .ok [first]
  else do
    refuse (spec.count.val = 0) .invalidArgument "series member count must be non-zero"
    refuse (maxMembers < spec.count.val) .resourceExhausted
      "series member count exceeds the policy bound"
    validateInterval first
    refuse (1 < spec.count.val && spec.period.val ≤ 0) .invalidArgument
      "series period must be positive"
    let span := first.stop.val - first.start.val
    refuse (1 < spec.count.val && spec.period.val < span) .invalidArgument
      "series members must not overlap: the period must be at least the member duration"
    refuse (0 < spec.period.val &&
        (maxTimestampNs - first.start.val) / spec.period.val < (spec.count.val : Int) - 1) .overflow
      "series expansion overflows the fabric timeline"
    expandMembers first spec.period span spec.count.val 0

/-- `derive_member_id`. -/
def deriveMemberId (series : ReservationSeriesId) (index : SeriesIndex) : ReservationId :=
  series.derive index.val

/-- `derive_series_id`. -/
def deriveSeriesId (claimant : ClaimantId) (attempt : AttemptId) (ordinal : Nat) :
    ReservationSeriesId :=
  fingerprint128 (claimant.bytes ++ attempt.bytes ++ beBytes 8 ordinal)

end Brf
