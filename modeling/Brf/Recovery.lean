import Brf.Reconcile

/-!
# Replay, snapshots and compaction

Model of `apply_replay_locked`, `snapshot_state_locked`, `apply_snapshot_locked`, `compact_locked`
and the recovery part of `open` (`src/coordinator_core.cpp`).

* `applyReplay` interprets one journal record; a failure leaves what the record had done so far.
* `snapshotState` is what compaction writes, `applySnapshot` what opening reads back.
* `recover` is the state after replay and before the boot-time refresh.
-/

namespace Brf

open Brf.Lib

namespace Coordinator

/-! ## Replay -/

/-- A retained attempt comes back, if the mutation carries one. -/
def recallAttempt (c : Coordinator) : Option AttemptMutation → Coordinator
  | none => c
  | some attempt => c.rememberAttempt attempt

/-- A series comes back as its generation, and as the current one if it is newer. -/
def recallSeries (c : Coordinator) (series : ReservationSeries) : Coordinator :=
  let newer := match c.currentSeries[series.id]? with
    | none => true
    | some current => current < series.generation
  { c with
    seriesRecords := c.seriesRecords.insert series.key series
    currentSeries :=
      if newer then c.currentSeries.insert series.id series.generation else c.currentSeries }

/-- A fence comes back under the keys it fences. -/
def recallFence (c : Coordinator) (fence : FenceRecord) : Coordinator :=
  { c with
    fencedClaimants :=
      if fence.claimantWide && !fence.claimant.isNil then
        c.fencedClaimants.insert fence.claimant fence
      else c.fencedClaimants
    fencedBoots :=
      if !fence.boot.isNil then c.fencedBoots.insert fence.boot fence else c.fencedBoots }

/-- A claimant registration comes back unless a later generation is known. -/
def recallClaimant (c : Coordinator) (registration : ClaimantMutation) : Coordinator :=
  let newer := match c.claimants[registration.claimant]? with
    | none => true
    | some known => known < registration.generation
  if newer then
    { c with claimants := c.claimants.insert registration.claimant registration.generation }
  else c

/-- A capacity ingestion comes back. -/
def replayCapacity (capacity : CapacityMutation) : Method Unit := do
  let snapshot := capacity.snapshot
  Op.each (fun resource => do
    let (_, ledger) ← Op.lift ((← get).ledger.apply resource snapshot.id snapshot.ingestedAt)
    modify fun c => { c with ledger }) snapshot.resources
  Op.each (fun name => do
    match (← get).ledger.withdraw name snapshot.ingestedAt with
    | .ok ledger => modify fun c => { c with ledger }
    | .error e => Op.refuseIf (e.code ≠ .notFound) e) capacity.withdrawals
  modify fun c => { c with
    lastCapacitySnapshot := snapshot.id
    lastCapacityGeneration := snapshot.generation }

/-- A path ingestion comes back. -/
def replayPaths (snapshot : PathAuthoritySnapshot) : Method Unit := do
  Op.each (fun path => do
    let (_, paths) ← Op.lift ((← get).paths.apply path snapshot.id snapshot.ingestedAt)
    modify fun c => { c with paths }) snapshot.paths
  modify fun c => { c with
    lastPathSnapshot := snapshot.id
    lastPathGeneration := snapshot.generation }

/-- The predecessor of an amendment is superseded again. -/
def replaySupersession (mutation : ReservationMutation) : Method Unit := do
  if mutation.supersedeRecord then
    let c ← get
    match c.findRecord mutation.record.predecessor mutation.record.predecessorGeneration with
    | none => throw (makeError .corrupt "supersession references an unknown predecessor")
    | some r =>
      let superseded := r.withState .superseded mutation.record.committedAt
        (ascii "superseded by a later generation") r.lastProvenance
      set (((c.countState r.state .superseded).putRecord superseded).syncQueues superseded)

/-- A transition committed with a reservation is made again. -/
def replayCompanion (companion : StateMutation) : Method Unit := do
  let c ← get
  match c.findRecord companion.id companion.generation with
  | none => throw (makeError .corrupt "companion mutation references an unknown reservation")
  | some r =>
    let moved := companion.applyTo r
    set (((c.countState r.state companion.toState).putRecord moved).syncQueues moved)

/-- A registered record and its queue entries. -/
def recallRecord (c : Coordinator) (r : ReservationRecord) : Coordinator :=
  (c.registerRecord r).syncQueues r

/-- A commit, an amendment or a series comes back. -/
def replayReservation (mutation : ReservationMutation) : Method Unit := do
  replaySupersession mutation
  modify fun c => { c with edges := c.edges ++ mutation.edge.toList }
  modify fun c => (mutation.record :: mutation.members).foldl recallRecord c
  modify fun c => mutation.series.toList.foldl recallSeries c
  Op.each replayCompanion mutation.companions
  modify fun c => c.recallAttempt mutation.attempt

/-- A transition comes back. -/
def replayState (mutation : StateMutation) : Method Unit := do
  let c ← get
  match c.findRecord mutation.id mutation.generation with
  | none => throw (makeError .corrupt "state mutation references an unknown reservation")
  | some r =>
    let recalled := if 0 < mutation.recallEffectiveAt.val then
        { r with recallEffectiveAt := mutation.recallEffectiveAt }
      else r
    let moved :=
      recalled.withState mutation.toState mutation.at' mutation.reason mutation.provenance
    set ((((c.countState r.state mutation.toState).putRecord moved).syncQueues moved).recallAttempt
      mutation.attempt)

/-- A change of applicability comes back; the queues are rebuilt after replay. -/
def replayApplicability (mutation : ApplicabilityMutation) : Method Unit := do
  let c ← get
  match c.findRecord mutation.id mutation.generation with
  | none => throw (makeError .corrupt "applicability mutation references an unknown reservation")
  | some r => set (c.putRecord { r with
      applicability := mutation.applicability
      applicabilityReason := mutation.reason
      stateChangedAt := mutation.at' })

/-- One record leaves the store for the archive as it is. -/
def replayRetire (c : Coordinator) (key : ReservationKey) : Coordinator :=
  match c.records[key]? with
  | none => c
  | some r => { c with
      retired := c.retired.insert key.id r
      records := c.records.erase key
      historyCount := c.historyCount - 1 }

/-- `apply_replay_locked`. -/
def applyReplay : DurableRecord → Method Unit
  | .fabricBoot epoch => modify fun c =>
      if c.incarnation.epoch < epoch.epoch then
        { c with incarnation := { c.incarnation with epoch := epoch.epoch } }
      else c
  | .capacitySnapshot capacity => replayCapacity capacity
  | .pathSnapshot path => replayPaths path
  | .policyRecord policy => do
      let (_, policies) ← Op.lift ((← get).policies.apply policy)
      modify fun c => { c with policies }
  | .reservationCommit reservation => replayReservation reservation
  | .reservationAmend reservation => replayReservation reservation
  | .reservationSeries reservation => replayReservation reservation
  | .reservationState state => replayState state
  | .reservationApplicability applicability => replayApplicability applicability
  | .attemptOutcome attempt => modify fun c => c.rememberAttempt attempt
  | .fence fence => modify fun c => c.recallFence fence
  | .claimantRegistration claimant => modify fun c => c.recallClaimant claimant
  | .overcommit overcommit => modify fun c => { c with
      overcommit := c.overcommit.insert overcommit.resource
        { mutation := overcommit, resolved := overcommit.resolved } }
  | .retire retire => modify fun c =>
      ((retire.ids.zip retire.generations).map fun p => ⟨p.1, p.2⟩).foldl replayRetire c

/-! ## Snapshots -/

/-- `snapshot_state_locked`. -/
def snapshotState (c : Coordinator) : SnapshotState :=
  { epoch := c.incarnation.epoch
    coordinatorBoot := c.incarnation.boot
    sequence := c.store.lastSequence
    capacity := c.ledger.values
    paths := c.paths.values
    policies := c.policies.values
    reservations := c.records.values
    series := c.seriesRecords.values
    edges := c.edges
    attempts := c.attempts.values
    fences := c.fencedBoots.values
    claimants := c.claimants.toList.map fun entry =>
      { claimant := entry.1, generation := entry.2 }
    overcommits := c.overcommit.values.map OvercommitState.mutation
    retired := c.retired.values }

/-- The capacity loop of `apply_snapshot_locked`: entries, and the snapshot ingested last. -/
def recallCapacity (acc : Coordinator × Timestamp) (entry : CapacityEntry) :
    Coordinator × Timestamp :=
  let c := { acc.1 with ledger := acc.1.ledger.insert entry.capacity.resource entry }
  if entry.ingestedAt < acc.2 then (c, acc.2)
  -- The snapshot-level generation restarts from zero: the per-resource generations are the guard.
  else ({ c with lastCapacitySnapshot := entry.snapshot, lastCapacityGeneration := 0 },
    entry.ingestedAt)

/-- The path loop of `apply_snapshot_locked`. -/
def recallPath (c : Coordinator) (entry : PathEntry) : Coordinator :=
  { c with paths := c.paths.insert entry.path.path entry, lastPathSnapshot := entry.snapshot }

/-- The policy loop of `apply_snapshot_locked`. -/
def recallPolicy (c : Coordinator) (entry : PolicyEntry) : Coordinator :=
  { c with policies := c.policies.insert entry.record.name entry }

/-- The overcommit loop of `apply_snapshot_locked`. -/
def recallOvercommit (c : Coordinator) (mutation : OvercommitMutation) : Coordinator :=
  { c with
    overcommit := c.overcommit.insert mutation.resource { mutation, resolved := mutation.resolved } }

/-- The archive loop of `apply_snapshot_locked`: an archived record is registered as well. -/
def recallRetired (c : Coordinator) (r : ReservationRecord) : Coordinator :=
  { c with retired := c.retired.insert r.id r }.registerRecord r

/-- `apply_snapshot_locked`. -/
def applySnapshot (c : Coordinator) (state : SnapshotState) : Coordinator :=
  let c := { c with ledger := ∅, paths := ∅, policies := ∅ }
  let c := (state.capacity.foldl recallCapacity (c, 0)).1
  let c := state.paths.foldl recallPath c
  let c := state.policies.foldl recallPolicy c
  let c := { c with incarnation := { c.incarnation with epoch := state.epoch } }
  let c := state.reservations.foldl recallRecord c
  let c := state.series.foldl recallSeries c
  let c := { c with edges := state.edges }
  let c := state.attempts.foldl rememberAttempt c
  let c := state.fences.foldl recallFence c
  let c := state.claimants.foldl recallClaimant c
  let c := state.overcommits.foldl recallOvercommit c
  state.retired.foldl recallRetired c

/-- `compact_locked`. -/
def compact : Method Unit := do
  let payload := encode (← get).snapshotState
  discard <| onStore (Store.writeSnapshot payload)
  onStore Store.rotateJournal

/-- `if (store->should_compact()) compact_locked()`. -/
def compactIfDue : Method Unit := do
  if (← get).store.shouldCompact then compact

/-! ## Recovery -/

/-- One turn of the replay loop of `open`. -/
def replayRecord (record : JournalRecord) : Method Unit := do
  let place := ascii "durable record at sequence " ++ toDecimal record.sequence.val
  match decodeRecord record.payload record.kind with
  | .error e => throw ⟨.corrupt, place ++ ascii " could not be decoded: " ++ e.message⟩
  | .ok durable =>
    match ← Op.attempt (applyReplay durable) with
    | .error e => throw ⟨e.code, place ++ ascii " could not be applied: " ++ e.message⟩
    | .ok () => pure ()

/-- The snapshot part of the recovery of `open`. -/
def recoverSnapshot (payload : Text) : Method Unit := do
  if !payload.isEmpty then
    match (decode : Reader Error SnapshotState).run payload with
    | .error e => throw ⟨.corrupt, ascii "snapshot payload could not be decoded: " ++ e.message⟩
    | .ok (state, rest) =>
      Op.refuseIf (!rest.isEmpty) (makeError .corrupt "snapshot payload has trailing bytes")
      modify fun c => c.applySnapshot state

/-- The recovery of `open`: the snapshot, the journal records after it, then queues and index. -/
def recoverFrom (store : Store) (records : List JournalRecord) : Method Unit := do
  recoverSnapshot store.snapshotPayload
  Op.each replayRecord records
  modify rebuildQueues
  rebuildIndex

/-- The coordinator that `open` recovers from a directory, before it advances the epoch. -/
def recover (config : Config) (disk : Disk) (faults : List Bool) : Result Coordinator := do
  let (store, records) ← Store.openStore disk faults
  let (result, c) := Op.exec (recoverFrom store records) { config, store }
  result
  pure c

end Coordinator

end Brf
