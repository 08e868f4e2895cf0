import Brf.Codec
import Brf.Index
import Brf.Spelling
import Brf.Store

/-!
# The state of the coordinator

Model of `ReservationCoordinator::Impl` (`src/coordinator_impl.hpp`), of `CoordinatorConfig`
(`include/brf/coordinator.hpp`), and of `RequestContext` and `HoldRecord` (`include/brf/codec.hpp`).

* `Coordinator` is the whole in-memory state together with the open store; an operation of the
  coordinator is a `Method`: it may fail, and what it changed before it failed stays changed.
* Every public operation reads the clock once; the instant is a parameter of the model's operation.
* A C++ reference to a stored record is the record's value here, written back under its own key.
* `AttemptRecord` and `FenceRecord` have the fields of the mutations that journal them.
* `suspended` is the entry list of the one `Suspension` object that is alive, if any.

Out of scope: the statistics other than the two that `reconcile_lifecycle` reports, the recovery
report, `released_holds` (nothing reads it), the store identity, and the mutex: operations are atomic.
-/

namespace Brf

open Brf.Lib

/-! ## Keys -/

/-- `detail::ReservationKey`. -/
@[ext] structure ReservationKey where
  id : ReservationId := 0
  generation : ReservationGeneration := 0
  deriving DecidableEq, Repr, Inhabited

/-- `detail::SeriesKey`. -/
@[ext] structure SeriesKey where
  id : ReservationSeriesId := 0
  generation : SeriesGeneration := 0
  deriving DecidableEq, Repr, Inhabited

/-- The order of `ReservationKey`: by identity, then by generation. -/
def ReservationKey.toPair (k : ReservationKey) : ReservationId ×ₗ ReservationGeneration :=
  toLex (k.id, k.generation)

/-- The order of `SeriesKey`. -/
def SeriesKey.toPair (k : SeriesKey) : ReservationSeriesId ×ₗ SeriesGeneration :=
  toLex (k.id, k.generation)

theorem ReservationKey.toPair_injective : Function.Injective ReservationKey.toPair := by
  intro a b h
  have h := Prod.ext_iff.mp (toLex.injective h)
  exact ReservationKey.ext h.1 h.2

theorem SeriesKey.toPair_injective : Function.Injective SeriesKey.toPair := by
  intro a b h
  have h := Prod.ext_iff.mp (toLex.injective h)
  exact SeriesKey.ext h.1 h.2

instance : LinearOrder ReservationKey := LinearOrder.lift' _ ReservationKey.toPair_injective

instance : LinearOrder SeriesKey := LinearOrder.lift' _ SeriesKey.toPair_injective

/-- The key a record is stored under. -/
def ReservationRecord.key (r : ReservationRecord) : ReservationKey := ⟨r.id, r.generation⟩

/-- The key a series is stored under. -/
def ReservationSeries.key (s : ReservationSeries) : SeriesKey := ⟨s.id, s.generation⟩

/-! ## Requests, holds and evidence -/

/-- `RequestContext`: identity and epoch assertions attached to every request. -/
structure RequestContext where
  actor : ActorName := default
  publisher : PublisherId := 0
  publisherBoot : PublisherBootId := 0
  session : SessionId := 0
  attempt : AttemptId := 0
  claimant : ClaimantId := 0
  claimantGeneration : ClaimantGeneration := 0
  assertedEpoch : FabricEpoch := 0
  reason : Text := []
  deriving DecidableEq, Repr, Inhabited

/-- `HoldRecord`: a transient, non-durable claim on capacity. -/
structure HoldRecord where
  id : HoldId := 0
  generation : HoldGeneration := 0
  claimant : ClaimantId := 0
  claimantGeneration : ClaimantGeneration := 0
  session : SessionId := 0
  boot : PublisherBootId := 0
  epoch : FabricEpoch := 0
  bindingKind : BindingKind := .resources
  resources : List ResourceName := []
  path : PathName := default
  pathGeneration : PathAuthorityGeneration := 0
  interval : Interval := {}
  amount : Bandwidth := 0
  guarantee : GuaranteeClass := .guaranteed
  createdAt : Timestamp := 0
  expiresAt : Timestamp := 0
  released : Bool := false
  releasedAt : Timestamp := 0
  releaseReason : Text := []
  deriving DecidableEq, Repr, Inhabited

/-- `detail::AttemptRecord`; its `sequence` is the mutation's `result_sequence`. -/
abbrev AttemptRecord := AttemptMutation

/-- `detail::FenceRecord`. -/
abbrev FenceRecord := FenceMutation

/-- `detail::OvercommitState`. -/
structure OvercommitState where
  mutation : OvercommitMutation := {}
  resolved : Bool := false
  deriving DecidableEq, Repr, Inhabited

/-- `detail::ResolvedBinding`. -/
structure ResolvedBinding where
  kind : BindingKind := .resources
  path : PathName := default
  pathGeneration : PathAuthorityGeneration := 0
  resources : List ResourceRef := []
  failureDomains : List FailureDomainRef := []
  deriving DecidableEq, Repr, Inhabited

/-! ## Configuration -/

/-- `CoordinatorConfig`. -/
structure Config where
  maxLiveReservations : Nat := 262144
  maxHistoryRecords : Nat := 262144
  maxAttempts : Nat := 262144
  indexScanLimit : Nat := 8192
  enablePreemption : Bool := true
  deriving DecidableEq, Repr, Inhabited

/-- `CoordinatorIncarnation`. -/
structure Incarnation where
  boot : Identity128 := 0
  epoch : FabricEpoch := 0
  deriving DecidableEq, Repr, Inhabited

/-- The two counters of `CoordinatorStats` that an operation reports. -/
structure Stats where
  expiries : Nat := 0
  revocations : Nat := 0
  deriving DecidableEq, Repr, Inhabited

/-! ## Time queues -/

/-- `std::multimap<Timestamp, ReservationKey>`. -/
abbrev TimeQueue := List (Timestamp × ReservationKey)

namespace TimeQueue

/-- `multimap::emplace`: after the entries with the same instant. -/
def emplace (at' : Timestamp) (key : ReservationKey) : TimeQueue → TimeQueue
  | [] => [(at', key)]
  | entry :: rest =>
    if at' < entry.1 then (at', key) :: entry :: rest else entry :: emplace at' key rest

/-- The `remove_from` loop of `sync_queues_locked`. -/
def removeKey (queue : TimeQueue) (key : ReservationKey) : TimeQueue :=
  queue.filter fun entry => entry.2 ≠ key

/-- The keys whose instant has come. -/
def due (queue : TimeQueue) (now : Timestamp) : List ReservationKey :=
  (queue.takeWhile fun entry => entry.1 ≤ now).map (·.2)

end TimeQueue

/-! ## The state -/

/-- `ReservationCoordinator::Impl`. -/
structure Coordinator where
  config : Config := {}
  store : Store := {}
  incarnation : Incarnation := {}
  stopping : Bool := false
  stats : Stats := {}
  ledger : CapacityLedger := ∅
  paths : PathTable := ∅
  policies : PolicyRegistry := ∅
  index : CapacityIndex := {}
  lastCapacitySnapshot : CapacitySnapshotId := 0
  lastCapacityGeneration : CapacitySnapshotGeneration := 0
  lastPathSnapshot : CapacitySnapshotId := 0
  lastPathGeneration : CapacitySnapshotGeneration := 0
  records : Map ReservationKey ReservationRecord := ∅
  generations : Map ReservationId (List ReservationGeneration) := ∅
  currentGeneration : Map ReservationId ReservationGeneration := ∅
  edges : List SupersessionEdge := []
  seriesRecords : Map SeriesKey ReservationSeries := ∅
  currentSeries : Map ReservationSeriesId SeriesGeneration := ∅
  attempts : Map AttemptId AttemptRecord := ∅
  attemptOrder : List AttemptId := []
  claimants : Map ClaimantId ClaimantGeneration := ∅
  fencedBoots : Map PublisherBootId FenceRecord := ∅
  fencedClaimants : Map ClaimantId FenceRecord := ∅
  holds : Map HoldId HoldRecord := ∅
  overcommit : Map ResourceName OvercommitState := ∅
  retired : Map ReservationId ReservationRecord := ∅
  activationQueue : TimeQueue := []
  expiryQueue : TimeQueue := []
  recallQueue : TimeQueue := []
  liveCount : Nat := 0
  historyCount : Nat := 0
  suspended : List IndexEntry := []

namespace Coordinator

/-- A method of the coordinator. -/
abbrev Method := Op Error Coordinator

/-- The state with another index. -/
def withIndex (c : Coordinator) (index : CapacityIndex) : Coordinator := { c with index }

@[simp] theorem withIndex_index (c : Coordinator) (index : CapacityIndex) :
    (c.withIndex index).index = index := rfl

/-- The state with another store handle. -/
def withStore (c : Coordinator) (store : Store) : Coordinator := { c with store }

@[simp] theorem withStore_store (c : Coordinator) (store : Store) :
    (c.withStore store).store = store := rfl

/-- A call of a method of the store. -/
def onStore {α : Type} (m : Store.Method α) : Method α :=
  Op.zoom Coordinator.store (fun store c => c.withStore store) m

/-- A call of a method of the index. -/
def onIndex {α : Type} (m : CapacityIndex.Method α) : Method α :=
  Op.zoom Coordinator.index (fun index c => c.withIndex index) m

/-! ## Persistence and provenance -/

/-- `append_locked`. -/
def append (record : DurableRecord) : Method DurableSequence :=
  onStore (Store.append record.kind (encodeRecord record))

/-- The number the next append gets: `store->last_sequence() + 1`. -/
def predictedSequence (c : Coordinator) : DurableSequence := c.store.lastSequence + 1

/-- `make_provenance_locked`. -/
def makeProvenance (c : Coordinator) (context : RequestContext) (sequence : DurableSequence)
    (at' : Timestamp) : Provenance :=
  { actor := context.actor
    publisher := context.publisher
    publisherBoot := context.publisherBoot
    session := context.session
    attempt := context.attempt
    fabricEpoch := c.incarnation.epoch
    coordinatorBoot := c.incarnation.boot
    recordedAt := at'
    sequence
    reason := sanitizeReason context.reason }

/-- `policy_for_locked`: the policy in force, and a note when it is the built-in one. -/
def policyFor (c : Coordinator) (name : PolicyName) : PolicyRecord × Text :=
  match c.policies.current name with
  | some policy => (policy, [])
  | none => (PolicyRecord.strictDefault name, ascii "policy '" ++ name.text ++
      ascii "' is not registered; the strict built-in policy applies")

/-- The context of the transitions and revalidations the coordinator makes on its own. -/
def internalContext (c : Coordinator) (reason : String) : RequestContext :=
  { actor := FixedName.lit "brf-coordinator"
    publisher := c.incarnation.boot
    publisherBoot := c.incarnation.boot
    assertedEpoch := c.incarnation.epoch
    reason := ascii reason }

/-- `validate_context_locked`. -/
def validateContext (c : Coordinator) (context : RequestContext) (requireAttempt : Bool) :
    Result Unit := do
  refuse c.stopping .shuttingDown "coordinator is shutting down"
  if context.assertedEpoch ≠ c.incarnation.epoch then
    throw ⟨.staleEpoch, ascii "request asserts fabric epoch " ++
      toDecimal context.assertedEpoch.val ++ ascii " but this incarnation is epoch " ++
      toDecimal c.incarnation.epoch.val⟩
  refuse context.publisher.isNil .invalidIdentity "request must carry a publisher identity"
  refuse (requireAttempt && context.attempt.isNil) .invalidIdentity
    "authority-bearing requests must carry an attempt identity"
  if !context.publisherBoot.isNil then
    if let some fence := c.fencedBoots[context.publisherBoot]? then
      throw ⟨.fencedClaimant, ascii "publisher boot is fenced: " ++ sanitizeReason fence.reason⟩
  if !context.claimant.isNil then
    if let some fence := c.fencedClaimants[context.claimant]? then
      throw ⟨.fencedClaimant, ascii "claimant is fenced: " ++ sanitizeReason fence.reason⟩

end Coordinator

end Brf
