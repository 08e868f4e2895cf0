import Brf.Reconcile

/-!
# Assessment

Model of the decision part of `src/coordinator_admission.cpp`: binding resolution, the evaluation of
one window against capacity, and the order of preemption victims; and of `include/brf/outcome.hpp`.

* `resolveBinding` pins the terms to the generations in force.
* `assess` is a pure function of the state. `scanResource` is the body of its loop over the bound
  resources and `Scan` what the loop carries: the evidence, the first problem and four flags.
* `evaluate` assesses the windows of a series one after the other, each against the same state.
-/

namespace Brf

open Brf.Lib

/-! ## Outcomes and evidence -/

/-- `outcome_to_error_code`. -/
def outcomeToErrorCode : AdmissionOutcome → ErrorCode
  | .committable => .ok
  | .insufficientCapacity => .insufficientCapacity
  | .policyRejected => .policyRejected
  | .staleResource => .staleGeneration
  | .stalePathAuthority => .staleGeneration
  | .conflictingReservation => .conflict
  | .invalidInterval => .invalidInterval
  | .claimantFenced => .fencedClaimant
  | .unsupported => .unsupported
  | .emergencyOvercommit => .capacityOvercommit
  | .idempotentReplay => .idempotentReplay
  | .staleEpoch => .staleEpoch
  | .invalidRequest => .invalidArgument
  | .generationMismatch => .generationMismatch
  | .resourceExhausted => .resourceExhausted
  | .conflict => .conflict

/-- `to_string(AdmissionOutcome)`. -/
def AdmissionOutcome.spelling : AdmissionOutcome → Text
  | .committable => ascii "COMMITTABLE"
  | .insufficientCapacity => ascii "INSUFFICIENT_CAPACITY"
  | .policyRejected => ascii "POLICY_REJECTED"
  | .staleResource => ascii "STALE_RESOURCE"
  | .stalePathAuthority => ascii "STALE_PATH_AUTHORITY"
  | .conflictingReservation => ascii "CONFLICTING_RESERVATION"
  | .invalidInterval => ascii "INVALID_INTERVAL"
  | .claimantFenced => ascii "CLAIMANT_FENCED"
  | .unsupported => ascii "UNSUPPORTED"
  | .emergencyOvercommit => ascii "EMERGENCY_OVERCOMMIT"
  | .idempotentReplay => ascii "IDEMPOTENT_REPLAY"
  | .staleEpoch => ascii "STALE_EPOCH"
  | .invalidRequest => ascii "INVALID_REQUEST"
  | .generationMismatch => ascii "GENERATION_MISMATCH"
  | .resourceExhausted => ascii "RESOURCE_EXHAUSTED"
  | .conflict => ascii "CONFLICT"

/-- `outcome_is_acceptance`. -/
def outcomeIsAcceptance : AdmissionOutcome → Bool
  | .committable | .idempotentReplay => true
  | _ => false

/-- `CapabilityDelta`: the accounting evidence of one decision on one resource. -/
structure CapabilityDelta where
  resource : ResourceName := default
  generation : ResourceGeneration := 0
  reservableCapacity : Bandwidth := 0
  protectedHeadroom : Bandwidth := 0
  committableCeiling : Bandwidth := 0
  committedPeakBefore : Bandwidth := 0
  committedPeakAfter : Bandwidth := 0
  holdsPeak : Bandwidth := 0
  remainingAfter : Bandwidth := 0
  window : Interval := {}
  maintenanceCovers : Bool := false
  overcommitEmergency : Bool := false
  deriving DecidableEq, Repr, Inhabited

/-- `ConflictEntry`. -/
structure ConflictEntry where
  id : ReservationId := 0
  generation : ReservationGeneration := 0
  resource : ResourceName := default
  interval : Interval := {}
  amount : Bandwidth := 0
  guarantee : GuaranteeClass := .guaranteed
  state : ReservationState := .committed
  isHold : Bool := false
  deriving DecidableEq, Repr, Inhabited

/-- `ConflictSet`. -/
structure ConflictSet where
  entries : List ConflictEntry := []
  totalConsidered : Nat := 0
  scanLimitHit : Nat := 0
  truncated : Bool := false
  deriving DecidableEq, Repr, Inhabited

/-- `detail::Assessment`. -/
structure Assessment where
  outcome : AdmissionOutcome := .committable
  explanation : Text := []
  deltas : List CapabilityDelta := []
  conflicts : ConflictSet := {}
  victims : List ReservationId := []
  victimGenerations : List ReservationGeneration := []
  preemptionPlanned : Bool := false
  reason : ApplicabilityReason := .current
  deriving DecidableEq, Repr, Inhabited

/-- `AdmissionReport`; `to_admission_report` copies an assessment into it field by field. -/
abbrev AdmissionReport := Assessment

namespace Coordinator

/-! ## Binding resolution -/

/-- A component's capacity enters the binding. -/
def ResolvedBinding.bind (binding : ResolvedBinding) (name : ResourceName)
    (capacity : ResourceCapacity) : ResolvedBinding :=
  { binding with
    resources := binding.resources ++ [⟨name, capacity.generation⟩]
    failureDomains :=
      if capacity.failureDomain.empty then binding.failureDomains
      else binding.failureDomains ++ [⟨capacity.failureDomain, capacity.failureDomainGeneration⟩] }

/-- The loop of `resolve_binding_locked` over the names of a resource binding. -/
def bindResources (c : Coordinator) :
    List ResourceName → ResolvedBinding → Result ResolvedBinding
  | [], binding => pure binding
  | name :: rest, binding =>
    match c.ledger[name]? with
    | none => throw ⟨.staleGeneration, ascii "resource '" ++ name.text ++
        ascii "' is not present in the authoritative ledger"⟩
    | some entry =>
      if entry.withdrawn then throw ⟨.staleGeneration, ascii "resource '" ++ name.text ++
        ascii "' has been withdrawn"⟩
      else bindResources c rest (ResolvedBinding.bind binding name entry.capacity)

/-- The loop of `resolve_binding_locked` over the components of a path. -/
def bindComponents (c : Coordinator) :
    List ResourceName → ResolvedBinding → Result ResolvedBinding
  | [], binding => pure binding
  | name :: rest, binding =>
    match c.ledger[name]?.filter fun entry => !entry.withdrawn with
    | none => throw ⟨.staleGeneration, ascii "path component '" ++ name.text ++
        ascii "' has no current authoritative capacity"⟩
    | some entry => bindComponents c rest (ResolvedBinding.bind binding name entry.capacity)

/-- The path part of `resolve_binding_locked`. -/
def bindPath (c : Coordinator) (terms : ReservationTerms) (binding : ResolvedBinding) :
    Result ResolvedBinding :=
  match c.paths[terms.path]? with
  | none => throw ⟨.staleGeneration, ascii "path '" ++ terms.path.text ++
      ascii "' has no authority record"⟩
  | some entry => do
    if entry.retired then
      throw ⟨.staleGeneration, ascii "path '" ++ terms.path.text ++ ascii "' is retired"⟩
    if terms.requiredPathGeneration.val ≠ 0 && entry.path.generation ≠ terms.requiredPathGeneration
    then throw ⟨.staleGeneration, ascii "path '" ++ terms.path.text ++
      ascii "' is at authority generation " ++ toDecimal entry.path.generation.val ++
      ascii ", not the required " ++ toDecimal terms.requiredPathGeneration.val⟩
    bindComponents c entry.path.components
      { binding with path := terms.path, pathGeneration := entry.path.generation }

/-- `resolve_binding_locked`. -/
def resolveBinding (c : Coordinator) (terms : ReservationTerms) : Result ResolvedBinding := do
  let binding ← match terms.bindingKind with
    | .resources => bindResources c terms.resources { kind := .resources }
    | .path => bindPath c terms { kind := .path }
  let resources ← canonicalizeResources binding.resources
  let failureDomains ← canonicalizeFailureDomains binding.failureDomains
  pure { binding with resources, failureDomains }

/-! ## Evaluation -/

/-- What the loop of `assess_locked` carries. -/
structure Scan where
  deltas : List CapabilityDelta := []
  firstProblem : Text := []
  reason : ApplicabilityReason := .current
  stale : Bool := false
  policyRejected : Bool := false
  emergency : Bool := false
  shortResources : List ResourceName := []
  deriving DecidableEq, Repr, Inhabited

/-- `if (first_problem.empty()) first_problem = …`. -/
def Scan.problem (scan : Scan) (text : Text) : Scan :=
  if scan.firstProblem.isEmpty then { scan with firstProblem := text } else scan

/-- A resource that is not at the bound generation makes the assessment stale. -/
def Scan.staleResource (scan : Scan) (delta : CapabilityDelta) (reason : ApplicabilityReason)
    (problem : Text) : Scan :=
  { scan.problem problem with
    stale := true
    reason
    deltas := scan.deltas ++ [delta] }

/-- `committable_ceiling` of the evidence: the ceiling less the headroom of policy and terms. -/
def assessedCeiling (capacity : ResourceCapacity) (policy : PolicyRecord)
    (terms : ReservationTerms) : Bandwidth :=
  let headroom := capacity.protectedHeadroom.val + policy.policyHeadroom.val +
    terms.headroomRequirement.val
  I64.wrap (max (capacity.reservableCapacity.val - headroom) 0)

/-- The evidence of `assess_locked` on a resource that is at the bound generation. -/
def capacityDelta (c : Coordinator) (terms : ReservationTerms) (policy : PolicyRecord)
    (ref : ResourceRef) (capacity : ResourceCapacity) : CapabilityDelta :=
  let ceiling := assessedCeiling capacity policy terms
  let after := saturatingAdd (c.index.peakCombined ref.resource terms.interval) terms.amount
  { resource := ref.resource
    generation := ref.generation
    window := terms.interval
    reservableCapacity := capacity.reservableCapacity
    protectedHeadroom := capacity.protectedHeadroom
    committableCeiling := ceiling
    committedPeakBefore := c.index.peakCommitted ref.resource terms.interval
    holdsPeak := c.index.peakHolds ref.resource terms.interval
    committedPeakAfter := after
    remainingAfter := I64.wrap (max (ceiling.val - after.val) 0)
    overcommitEmergency := c.emergency ref.resource
    maintenanceCovers := (capacity.maintenanceCovers terms.interval).isSome }

/-- The flags one evidence raises. -/
def Scan.addDelta (scan : Scan) (policy : PolicyRecord) (capacity : ResourceCapacity)
    (delta : CapabilityDelta) : Scan :=
  let scan :=
    if delta.overcommitEmergency && !policy.allowOvercommit then
      { scan.problem (ascii "resource '" ++ delta.resource.text ++
          ascii "' is in an emergency overcommit state pending policy resolution") with
        emergency := true }
    else scan
  let scan :=
    match capacity.maintenanceCovers delta.window with
    | none => scan
    | some maintenance =>
      { scan.problem (ascii "resource '" ++ delta.resource.text ++
          ascii "' is under maintenance during " ++ windowText maintenance) with
        policyRejected := true
        reason := .maintenanceWindowAdded }
  let covered := delta.committedPeakAfter ≤ delta.committableCeiling ||
    (policy.allowOvercommit && delta.committedPeakAfter.val ≤
      delta.committableCeiling.val + policy.overcommitAllowance.val)
  { scan with
    shortResources :=
      if covered then scan.shortResources else scan.shortResources ++ [delta.resource]
    deltas := scan.deltas ++ [delta] }

/-- The body of the loop of `assess_locked`. -/
def scanResource (c : Coordinator) (terms : ReservationTerms) (policy : PolicyRecord)
    (scan : Scan) (ref : ResourceRef) : Scan :=
  let blank : CapabilityDelta :=
    { resource := ref.resource, generation := ref.generation, window := terms.interval }
  match c.ledger[ref.resource]?.filter fun entry => !entry.withdrawn with
  | none => scan.staleResource blank .resourceWithdrawn
      (ascii "resource '" ++ ref.resource.text ++ ascii "' is withdrawn or unknown")
  | some entry =>
    if entry.capacity.generation ≠ ref.generation then
      scan.staleResource blank .resourceGenerationChanged
        (ascii "resource '" ++ ref.resource.text ++ ascii "' moved from generation " ++
          toDecimal ref.generation.val ++ ascii " to " ++ toDecimal entry.capacity.generation.val)
    else scan.addDelta policy entry.capacity (c.capacityDelta terms policy ref entry.capacity)

/-- The path check of `assess_locked`: the problem it finds. -/
def stalePath (c : Coordinator) (terms : ReservationTerms) (binding : ResolvedBinding) :
    Option Text :=
  if terms.bindingKind = .path then
    match c.paths[terms.path]? with
    | none => some (ascii "path '" ++ terms.path.text ++ ascii "' has no current authority")
    | some entry =>
      if entry.retired then some (ascii "path '" ++ terms.path.text ++ ascii "' is retired")
      else if entry.path.generation ≠ binding.pathGeneration then
        some (ascii "path '" ++ terms.path.text ++ ascii "' moved authority generation")
      else none
  else none

/-- The order in which conflicts are reported. -/
def conflictOrder (a b : ConflictEntry) : Bool :=
  if a.id ≠ b.id then a.id < b.id
  else if a.generation ≠ b.generation then a.generation < b.generation
  else a.resource ≤ b.resource

/-- The conflict of an index entry. -/
def conflictEntry (e : IndexEntry) : ConflictEntry :=
  { id := e.id
    generation := e.holderGeneration
    resource := e.resource
    interval := e.interval
    amount := e.amount
    guarantee := e.guarantee
    state := e.state
    isHold := e.kind = .hold }

/-- The conflicts of the short resources. -/
def conflictSet (c : Coordinator) (window : Interval) (maxConflicts : Nat)
    (short : List ResourceName) : ConflictSet :=
  let scans := short.map fun name =>
    c.index.overlapping name window maxConflicts c.config.indexScanLimit
  let entries := (scans.flatMap fun s => s.entries.map conflictEntry).insertionSort
    fun a b => conflictOrder a b
  { entries := entries.take maxConflicts
    totalConsidered := (scans.map CapacityIndex.Overlaps.total).sum
    scanLimitHit := scans.countP CapacityIndex.Overlaps.truncated
    truncated := scans.any CapacityIndex.Overlaps.truncated || maxConflicts < entries.length }

/-- The explanation of a refusal for lack of capacity. -/
def shortExplanation (terms : ReservationTerms) (short : List ResourceName)
    (conflicts : ConflictSet) : Text :=
  ascii "INSUFFICIENT_CAPACITY: resource=" ++ (short.headD default).text ++ ascii " window=" ++
    windowText terms.interval ++ ascii " amount=" ++ formatBandwidth terms.amount ++
    ascii " conflicts=" ++ toDecimal conflicts.totalConsidered ++
    (if conflicts.truncated then ascii " (conflict set truncated)" else [])

/-- The explanation of an acceptance. -/
def committableExplanation (terms : ReservationTerms) (deltas : List CapabilityDelta) : Text :=
  ascii "COMMITTABLE window=" ++ windowText terms.interval ++ ascii " amount=" ++
    formatBandwidth terms.amount ++
    deltas.flatMap fun delta =>
      ascii " | " ++ delta.resource.text ++ ascii ":" ++ toDecimal delta.generation.val ++
        ascii " ceiling=" ++ formatBandwidth delta.committableCeiling ++
        ascii " before=" ++ formatBandwidth delta.committedPeakBefore ++
        ascii " holds=" ++ formatBandwidth delta.holdsPeak ++
        ascii " after=" ++ formatBandwidth delta.committedPeakAfter ++
        ascii " remaining=" ++ formatBandwidth delta.remainingAfter

/-- `assess_locked`; both bounds come from the policy at every call. -/
def assess (c : Coordinator) (terms : ReservationTerms) (binding : ResolvedBinding)
    (policy : PolicyRecord) : Assessment :=
  let stalePath := c.stalePath terms binding
  let scan := binding.resources.foldl (c.scanResource terms policy)
    { firstProblem := stalePath.getD [] }
  let deltas := scan.deltas.insertionSort fun a b => a.resource ≤ b.resource
  let bound (text : Text) : Text := text.take policy.maxExplanationBytes.val
  if stalePath.isSome then
    { outcome := .stalePathAuthority
      reason := .pathGenerationChanged
      explanation := ascii "STALE_PATH_AUTHORITY: " ++ scan.firstProblem
      deltas }
  else if scan.stale then
    { outcome := .staleResource
      reason := scan.reason
      explanation := ascii "STALE_RESOURCE: " ++ scan.firstProblem
      deltas }
  else if scan.policyRejected then
    { outcome := .policyRejected
      reason := scan.reason
      explanation := ascii "POLICY_REJECTED: " ++ scan.firstProblem
      deltas }
  else if scan.emergency then
    { outcome := .emergencyOvercommit
      explanation := ascii "EMERGENCY_OVERCOMMIT: " ++ scan.firstProblem
      deltas }
  else if scan.shortResources ≠ [] then
    let conflicts := c.conflictSet terms.interval policy.maxConflictSet.val scan.shortResources
    { outcome := .insufficientCapacity
      explanation := bound (shortExplanation terms scan.shortResources conflicts)
      conflicts
      deltas }
  else
    { outcome := .committable
      explanation := bound (committableExplanation terms deltas)
      deltas }

/-- The terms of one window of a series. -/
def shifted (terms : ReservationTerms) (window : Interval) : ReservationTerms :=
  { terms with interval := window }

/-- The evaluation loops of `create_locked` and `amend_locked`: the assessments of all windows, or
the first window that does not close and its assessment. -/
def evaluate (c : Coordinator) (terms : ReservationTerms) (binding : ResolvedBinding)
    (policy : PolicyRecord) : List Interval → Except (Interval × Assessment) (List Assessment)
  | [] => .ok []
  | window :: rest =>
    let evaluation := c.assess (shifted terms window) binding policy
    if evaluation.outcome ≠ .committable then .error (window, evaluation)
    else do
      let evaluations ← evaluate c terms binding policy rest
      pure (evaluation :: evaluations)

/-! ## Preemption candidates -/

/-- The order of victims: weakest class first, then identity, then generation. -/
def victimOrder (a b : IndexEntry) : Bool :=
  if a.guarantee ≠ b.guarantee then a.guarantee.rank < b.guarantee.rank
  else if a.id ≠ b.id then a.id < b.id
  else a.holderGeneration ≤ b.holderGeneration

/-- `preemption_candidates_locked`. -/
def preemptionCandidates (c : Coordinator) (resource : ResourceName) (window : Interval)
    (requester : GuaranteeClass) (policy : PolicyRecord) (self : ReservationId) :
    List IndexEntry :=
  let limit := c.config.indexScanLimit
  let eligible := (c.index.overlapping resource window limit limit).entries.filter fun e =>
    e.kind = .reservation && e.id ≠ self && e.guarantee.rank < requester.rank &&
      !(e.guarantee = .guaranteed && !policy.allowRecallGuaranteed) &&
      !(e.guarantee = .«protected» && !policy.allowRecallProtected)
  (eligible.insertionSort fun a b => victimOrder a b).destutter fun a b =>
    ¬ (a.id = b.id ∧ a.holderGeneration = b.holderGeneration)

end Coordinator

end Brf
