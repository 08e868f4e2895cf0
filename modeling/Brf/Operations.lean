import Brf.Lifecycle

/-!
# Ingestion, fences, holds and maintenance

Model of `ingest_capacity_locked` (`src/coordinator_core.cpp`), of `src/coordinator_ops.cpp` and of
`src/coordinator_overcommit.cpp`.

* The three ingestions change the in-memory authority first and append the durable record after;
  `applyCapacities`, `withdrawAll` and `applyPaths` are their loops, `settleCapacity` and
  `settlePaths` what follows the append.
* A hold is not durable: `acquireHold` appends nothing and derives the hold's identity from the
  attempt.
* `resolveOvercommit` revokes at most `resolutionBound` reservations in one call.
-/

namespace Brf

open Brf.Lib

namespace Coordinator

/-! ## Capacity -/

/-- The checks of `ingest_capacity_locked` on the snapshot alone. -/
def checkCapacitySnapshot (c : Coordinator) (snapshot : CapacitySnapshot) : Result Unit := do
  refuse snapshot.id.isNil .invalidIdentity "capacity snapshot must carry an identity"
  refuse (snapshot.generation.val = 0) .invalidArgument
    "capacity snapshot generation must be non-zero"
  refuse (snapshot.fabricEpoch.val ≠ 0 && snapshot.fabricEpoch ≠ c.incarnation.epoch) .staleEpoch
    "capacity snapshot was produced for a different fabric epoch"
  refuse (maxResourcesPerSnapshot < snapshot.resources.length) .resourceExhausted
    "capacity snapshot exceeds the resource bound"

/-- The snapshot is not newer than the last one ingested. -/
def oldCapacitySnapshot (c : Coordinator) (snapshot : CapacitySnapshot) : Bool :=
  snapshot.generation ≤ c.lastCapacityGeneration && !c.lastCapacitySnapshot.isNil

/-- The loop over the statements of a snapshot: those that changed the ledger. -/
def applyCapacities (snapshot : CapacitySnapshotId) (now : Timestamp) :
    List ResourceCapacity → Method (List ResourceCapacity)
  | [] => pure []
  | capacity :: rest => do
    let (changed, ledger) ← Op.lift ((← get).ledger.apply capacity snapshot now)
    modify fun c => { c with ledger }
    let applied ← applyCapacities snapshot now rest
    pure (if changed then capacity :: applied else applied)

/-- The loop over the withdrawals: those that name a known resource. -/
def withdrawAll (now : Timestamp) : List ResourceName → Method (List ResourceName)
  | [] => pure []
  | name :: rest => do
    match (← get).ledger.withdraw name now with
    | .error e =>
      Op.refuseIf (e.code ≠ .notFound) e
      withdrawAll now rest
    | .ok ledger =>
      modify fun c => { c with ledger }
      let withdrawn ← withdrawAll now rest
      pure (name :: withdrawn)

/-- The coordinator remembers the capacity snapshot it saw last. -/
def sawCapacity (c : Coordinator) (snapshot : CapacitySnapshot) : Coordinator :=
  { c with
    lastCapacitySnapshot := snapshot.id
    lastCapacityGeneration := snapshot.generation }

/-- What follows a durable capacity ingestion: reservations are marked or revalidated, holds on the
changed resources are fenced, and the resources are checked for overcommitment. -/
def settleCapacity (now : Timestamp) (changed withdrawn : List ResourceName) : Method Unit := do
  refreshApplicability now true
  fenceHolds now (ascii "resource generation changed under a provisional hold") fun h =>
    h.resources.any fun name => changed.contains name || withdrawn.contains name
  Op.each (fun name => detectOvercommit name now) changed
  Op.each (fun name => detectOvercommit name now) withdrawn
  releaseTerminalHistory now

/-- `ingest_capacity_locked`. -/
def ingestCapacity (now : Timestamp) (snapshot : CapacitySnapshot)
    (withdrawals : List ResourceName) (context : RequestContext) : Method Unit := do
  let c ← get
  Op.lift (c.validateContext context false)
  Op.lift (c.checkCapacitySnapshot snapshot)
  if c.oldCapacitySnapshot snapshot then
    Op.refuseIf (snapshot.id ≠ c.lastCapacitySnapshot)
      (makeError .staleGeneration "capacity snapshot generation went backwards")
  else
    Op.refuseIf (hasAdjacentEqual (sorted (snapshot.resources.map ResourceCapacity.resource)))
      (makeError .conflict "capacity snapshot names the same resource twice")
    let applied ← applyCapacities snapshot.id now snapshot.resources
    let withdrawn ← withdrawAll now withdrawals
    if applied.isEmpty && withdrawn.isEmpty then modify fun c => c.sawCapacity snapshot
    else
      discard <| append (.capacitySnapshot
        { snapshot := { snapshot with ingestedAt := now }, withdrawals := withdrawn })
      modify fun c => c.sawCapacity snapshot
      settleCapacity now (applied.map ResourceCapacity.resource) withdrawn

/-! ## Paths -/

/-- The checks of `ingest_paths_locked` on the snapshot alone. -/
def checkPathSnapshot (c : Coordinator) (snapshot : PathAuthoritySnapshot) : Result Unit := do
  refuse snapshot.id.isNil .invalidIdentity "path snapshot must carry an identity"
  refuse (snapshot.generation.val = 0) .invalidArgument "path snapshot generation must be non-zero"
  refuse (snapshot.fabricEpoch.val ≠ 0 && snapshot.fabricEpoch ≠ c.incarnation.epoch) .staleEpoch
    "path snapshot was produced for a different fabric epoch"
  refuse (maxResourcesPerSnapshot < snapshot.paths.length) .resourceExhausted
    "path snapshot exceeds the path bound"
  refuse (hasAdjacentEqual (sorted (snapshot.paths.map PathAuthority.path))) .conflict
    "path snapshot names the same path twice"

/-- The loop over the paths of a snapshot: the names that changed. -/
def applyPaths (snapshot : CapacitySnapshotId) (now : Timestamp) :
    List PathAuthority → Method (List PathName)
  | [] => pure []
  | path :: rest => do
    let (changed, paths) ← Op.lift ((← get).paths.apply path snapshot now)
    modify fun c => { c with paths }
    let names ← applyPaths snapshot now rest
    pure (if changed then path.path :: names else names)

/-- The coordinator remembers the path snapshot it saw last. -/
def sawPaths (c : Coordinator) (snapshot : PathAuthoritySnapshot) : Coordinator :=
  { c with
    lastPathSnapshot := snapshot.id
    lastPathGeneration := snapshot.generation }

/-- What follows a durable path ingestion. -/
def settlePaths (now : Timestamp) (changed : List PathName) : Method Unit := do
  refreshApplicability now true
  fenceHolds now (ascii "path authority changed under a provisional hold") fun h =>
    !h.path.empty && changed.contains h.path

/-- `ingest_paths_locked`. -/
def ingestPaths (now : Timestamp) (snapshot : PathAuthoritySnapshot) (context : RequestContext) :
    Method Unit := do
  let c ← get
  Op.lift (c.validateContext context false)
  Op.lift (c.checkPathSnapshot snapshot)
  let changed ← applyPaths snapshot.id now snapshot.paths
  if !changed.isEmpty then
    discard <| append (.pathSnapshot { snapshot with ingestedAt := now })
    modify fun c => c.sawPaths snapshot
    settlePaths now changed

/-! ## Policies -/

/-- The live records bound to another generation of a policy. -/
def affectedBy (c : Coordinator) (record : PolicyRecord) : List ReservationKey :=
  (c.records.toList.filter fun entry =>
    !isTerminal entry.2.state && entry.2.authority.policy = record.name &&
      entry.2.authority.policyGeneration ≠ record.generation).map (·.1)

/-- The marking loop of `ingest_policy_locked`. -/
def markPolicyChange (now : Timestamp) (key : ReservationKey) : Method Unit := do
  match (← get).records[key]? with
  | none => pure ()
  | some r => discard <| markApplicability r .revalidationRequired .policyMaterialChange now

/-- `ingest_policy_locked`. -/
def ingestPolicy (now : Timestamp) (record : PolicyRecord) (context : RequestContext) :
    Method Unit := do
  let c ← get
  Op.lift (c.validateContext context false)
  let previous := c.policies.current record.name
  let (changed, policies) ← Op.lift (c.policies.apply record)
  modify fun c => { c with policies }
  if changed then
    discard <| append (.policyRecord { record with ingestedAt := now })
    if previous.all record.materiallyDiffers then
      Op.each (markPolicyChange now) ((← get).affectedBy record)

/-! ## Claimants and fences -/

/-- `register_claimant_locked`. -/
def registerClaimant (now : Timestamp) (claimant : ClaimantId) (generation : ClaimantGeneration)
    (context : RequestContext) : Method Unit := do
  Op.lift ((← get).validateContext context false)
  Op.refuseIf (generation.val = 0)
    (makeError .invalidIdentity "claimant generation must be non-zero")
  ensureClaimant claimant generation now

/-- `fence_locked`. -/
def fence (now : Timestamp) (context : RequestContext) (claimant : ClaimantId)
    (generation : ClaimantGeneration) (boot : PublisherBootId) (session : SessionId)
    (claimantWide : Bool) : Method Unit := do
  Op.lift ((← get).validateContext context false)
  Op.refuseIf (claimant.isNil && boot.isNil && session.isNil)
    (makeError .invalidArgument "a fence must name a claimant, a boot, or a session")
  let record : FenceRecord :=
    { claimant
      claimantGeneration := generation
      boot
      session
      at' := now
      reason := sanitizeReason context.reason
      claimantWide }
  discard <| append (.fence record)
  modify fun c => c.recallFence record
  Op.when (!boot.isNil) (fenceHoldsForBoot now boot record.reason)
  Op.when (!session.isNil) (fenceHoldsForSession now session record.reason)
  Op.when (claimantWide && !claimant.isNil)
    (fenceHoldsForClaimant now claimant generation record.reason)

/-! ## Holds -/

/-- The constant `acquire_hold` derives hold identities with. -/
def holdDerivation : Nat := 0x484F4C44

/-- The policy limits of `acquire_hold`. -/
def checkHoldLimits (c : Coordinator) (policy : PolicyRecord) (context : RequestContext)
    (terms : ReservationTerms) (now expiresAt : Timestamp) : Result Unit := do
  refuse (0 < policy.maxHoldTtl.val && policy.maxHoldTtl < I64.wrap (expiresAt.val - now.val))
    .policyRejected "requested hold lifetime exceeds the policy bound"
  refuse (!(now < expiresAt)) .invalidInterval "hold deadline must be in the future"
  let live := c.holds.values.filter fun h => !h.released && h.session = context.session
  let bandwidth := (live.map fun h => h.amount.val).sum
  refuse (policy.maxHoldsPerSession.val ≠ 0 && policy.maxHoldsPerSession.val ≤ live.length)
    .resourceExhausted "session hold count exceeds the policy bound"
  refuse (0 < policy.maxHoldBandwidth.val &&
      policy.maxHoldBandwidth < I64.wrap (bandwidth + terms.amount.val)) .resourceExhausted
    "session hold bandwidth exceeds the policy bound"

/-- The hold `acquire_hold` grants. -/
def grantedHold (c : Coordinator) (context : RequestContext) (terms : ReservationTerms)
    (binding : ResolvedBinding) (now expiresAt : Timestamp) : HoldRecord :=
  { id := context.attempt.derive holdDerivation
    generation := 1
    claimant := terms.claimant
    claimantGeneration := terms.claimantGeneration
    session := context.session
    boot := context.publisherBoot
    epoch := c.incarnation.epoch
    bindingKind := binding.kind
    resources := binding.resources.map ResourceRef.resource
    path := binding.path
    pathGeneration := binding.pathGeneration
    interval := terms.interval
    amount := terms.amount
    guarantee := terms.guarantee
    createdAt := now
    expiresAt }

/-- The entry of a hold on one resource. -/
def holdEntry (h : HoldRecord) (name : ResourceName) : IndexEntry :=
  { kind := .hold
    id := h.id
    holderGeneration := h.generation
    resource := name
    interval := h.interval
    amount := h.amount
    guarantee := h.guarantee
    state := .pending }

/-- The indexing loop of `acquire_hold`: a failure erases every entry of the hold's identity. -/
def indexHold (h : HoldRecord) (name : ResourceName) : Method Unit := do
  match ← Op.attempt (onIndex (CapacityIndex.insert (holdEntry h name))) with
  | .ok () => pure ()
  | .error e =>
    discard <| Op.attempt <| onIndex (CapacityIndex.eraseAll .hold h.id)
    throw e

/-- `acquire_hold` up to the grant. -/
def admitHold (now : Timestamp) (context : RequestContext) (terms : ReservationTerms)
    (expiresAt : Timestamp) : Method HoldRecord := do
  Op.lift ((← get).validateContext context true)
  Op.lift (validateTerms terms)
  ensureClaimant terms.claimant terms.claimantGeneration now
  reconcile now
  let c ← get
  let policy := (c.policyFor terms.policy).1
  Op.lift (c.checkHoldLimits policy context terms now expiresAt)
  let binding ← Op.lift (c.resolveBinding terms)
  let assessment := c.assess terms binding policy
  Op.refuseIf (assessment.outcome ≠ .committable)
    ⟨outcomeToErrorCode assessment.outcome, assessment.explanation⟩
  pure (c.grantedHold context terms binding now expiresAt)

/-- `acquire_hold`. -/
def acquireHold (now : Timestamp) (context : RequestContext) (terms : ReservationTerms)
    (expiresAt : Timestamp) : Method HoldRecord := do
  let hold ← admitHold now context terms expiresAt
  Op.each (indexHold hold) hold.resources
  modify fun c => { c with holds := c.holds.insert hold.id hold }
  pure hold

/-- `release_hold`. -/
def releaseHoldRequest (now : Timestamp) (context : RequestContext) (id : HoldId)
    (generation : HoldGeneration) : Method HoldRecord := do
  let c ← get
  Op.lift (c.validateContext context false)
  match c.holds[id]? with
  | none => throw (makeError .notFound "hold does not exist")
  | some hold =>
    Op.refuseIf (hold.generation ≠ generation)
      (makeError .generationMismatch "hold generation does not match")
    Op.refuseIf (hold.boot ≠ context.publisherBoot && !context.publisherBoot.isNil)
      (makeError .authorityRequired "only the owning boot may release a hold")
    Op.when (!hold.released) (releaseHold now id context.reason)
    pure (((← get).holds[id]?).getD {})

/-- `release_session`. -/
def releaseSession (now : Timestamp) (context : RequestContext) : Method Unit := do
  Op.lift ((← get).validateContext context false)
  reconcile now
  fenceHoldsForSession now context.session (ascii "session released")

/-! ## Overcommit resolution -/

/-- `OvercommitResolution`. -/
inductive OvercommitResolution where
  | retain | revoke
  deriving DecidableEq, Repr, Inhabited

/-- The most revocations of one resolution: the loop stops after `revoked > 4096`. -/
def resolutionBound : Nat := 4097

/-- The candidates of one turn of the resolution: indexed entries, and obligations that no live
generation accounts for. -/
def resolutionCandidates (c : Coordinator) (resource : ResourceName) : List IndexEntry :=
  let limit := c.config.indexScanLimit
  (c.index.overlapping resource horizon limit limit).entries.filter (fun e =>
      e.kind = .reservation) ++
    (c.records.values.filter fun r => r.consumes && c.boundStale resource r).map fun r =>
      recordEntry r { resource, generation := 0 }

/-- The revocation loop of `resolve_overcommit`. -/
def revokeUntilClosed (now : Timestamp) (context : RequestContext) (resource : ResourceName)
    (ceiling : Bandwidth) : Nat → Method Unit
  | 0 => pure ()
  | fuel + 1 => do
    let c ← get
    let candidates := c.resolutionCandidates resource
    let effective := candidates.foldl (fun (x : IntervalIndex) e => x.add e.interval e.amount) {}
    if !candidates.isEmpty && ceiling < effective.peak horizon then
      let weakest := (candidates.insertionSort fun a b => victimOrder a b).headD {}
      match c.findRecord weakest.id weakest.holderGeneration with
      | none => pure ()
      | some victim =>
        let reason := ascii "overcommit resolution on " ++ resource.text
        discard <| transition victim .revoked now reason { context with reason } 0
        revokeUntilClosed now context resource ceiling fuel

/-- `resolve_overcommit`. -/
def resolveOvercommit (now : Timestamp) (context : RequestContext) (resource : ResourceName)
    (resolution : OvercommitResolution) : Method Unit := do
  let c ← get
  Op.lift (c.validateContext context true)
  Op.refuseIf (!c.emergency resource) ⟨.notFound, ascii "resource '" ++ resource.text ++
    ascii "' has no unresolved overcommit state"⟩
  match c.ledger[resource]? with
  | none => throw ⟨.notFound, ascii "resource '" ++ resource.text ++ ascii "' is not known"⟩
  | some entry =>
    let ceiling := if entry.withdrawn then 0 else entry.capacity.committableCeiling
    Op.when (resolution = .revoke) (revokeUntilClosed now context resource ceiling resolutionBound)
    recordOvercommit (overcommitMutation resource entry
      ((← get).index.peakCommitted resource horizon) now true)

/-! ## Shutdown -/

/-- `flush`. -/
def flush : Method Unit := do
  if (← get).store.journalOpen then onStore Store.sync

/-- `begin_shutdown`. -/
def beginShutdown (now : Timestamp) : Method Unit := do
  modify fun c => { c with stopping := true }
  fenceHoldsForSession now 0 (ascii "coordinator shutdown")
  fenceHolds now (ascii "coordinator shutdown") fun _ => true
  discard <| Op.attempt flush

end Coordinator

end Brf
