import Brf.Query

/-!
# Reports

Model of the queries of `src/coordinator_query.cpp` that change nothing: `query_lineage`,
`overcommit_report`, `stats` and `holds`.

* The two walks of `query_lineage` make at most `lineageBound` steps each. The walk to the root follows
  the predecessors of stored records; the walk to the current generation follows the recorded edges, and
  where there is none the first record that names the generation as its predecessor.
* The counters of `CoordinatorStats` that no modelled function reads are an argument of `stats`.

Out of scope: the report of the recovery, which the store makes (`Brf.Journal`).
-/

namespace Brf

open Brf.Lib

/-- The bound of the walks of `query_lineage`. -/
def lineageBound : Nat := 4096

/-- `LineageView`. -/
structure LineageView where
  id : ReservationId := 0
  generation : ReservationGeneration := 0
  ancestry : List SupersessionEdge := []
  descendants : List SupersessionEdge := []
  truncated : Bool := false
  deriving DecidableEq, Repr, Inhabited

/-- `OvercommitReport::Entry`. -/
structure OvercommitEntry where
  resource : ResourceName := default
  generation : ResourceGeneration := 0
  committedPeak : Bandwidth := 0
  committableCeiling : Bandwidth := 0
  window : Interval := {}
  detectedAt : Timestamp := 0
  deriving DecidableEq, Repr, Inhabited

/-- `OvercommitReport`. -/
structure OvercommitReport where
  entries : List OvercommitEntry := []
  emergencyActive : Bool := false
  deriving DecidableEq, Repr, Inhabited

/-- `CoordinatorStats`. -/
structure CoordinatorStats where
  commits : Word 64 := 0
  commitRejections : Word 64 := 0
  replayedAttempts : Word 64 := 0
  amendments : Word 64 := 0
  releases : Word 64 := 0
  expiries : Word 64 := 0
  recalls : Word 64 := 0
  revocations : Word 64 := 0
  revalidations : Word 64 := 0
  fencedHolds : Word 64 := 0
  capacityIngestions : Word 64 := 0
  generationAdvances : Word 64 := 0
  durableRecords : Word 64 := 0
  overcommitEvents : Word 64 := 0
  trackedReservations : Word 64 := 0
  trackedSeries : Word 64 := 0
  liveHolds : Word 64 := 0
  indexEntries : Word 64 := 0
  epoch : FabricEpoch := 0
  coordinatorBoot : Identity128 := 0
  journalBytes : Word 64 := 0
  snapshotSequence : Word 64 := 0
  deriving DecidableEq, Repr, Inhabited

namespace Coordinator

/-! ## Lineage -/

/-- The edge behind a stored predecessor. -/
def ancestryEdge (key : ReservationKey) (predecessor : ReservationRecord) : SupersessionEdge :=
  { predecessor := key.id
    predecessorGeneration := key.generation
    successor := predecessor.id
    successorGeneration := predecessor.generation + 1
    recordedAt := predecessor.stateChangedAt
    reason := predecessor.stateReason }

/-- The generation that a record supersedes. -/
def predecessorKey (r : ReservationRecord) : ReservationKey :=
  ⟨r.predecessor, r.predecessorGeneration⟩

/-- The walk to the root, latest edge first. -/
def ancestry (c : Coordinator) : Nat → ReservationKey → List SupersessionEdge
  | 0, _ => []
  | hops + 1, cursor =>
    if cursor.id.isNil then []
    else match c.records[cursor]? with
      | none => []
      | some predecessor =>
        ancestryEdge cursor predecessor :: c.ancestry hops (predecessorKey predecessor)

/-- The edge that a record stands for. -/
def successionEdge (r : ReservationRecord) : SupersessionEdge :=
  { predecessor := r.predecessor
    predecessorGeneration := r.predecessorGeneration
    successor := r.id
    successorGeneration := r.generation
    recordedAt := r.stateChangedAt
    reason := r.stateReason }

/-- The edge that leads on from a generation. -/
def nextEdge (c : Coordinator) (key : ReservationKey) : Option SupersessionEdge :=
  let recorded := c.edges.find? fun edge =>
    edge.predecessor = key.id && edge.predecessorGeneration = key.generation
  -- A series amendment records one edge; the other members name their predecessors.
  recorded.or ((c.records.values.find? fun r =>
    r.predecessor = key.id && r.predecessorGeneration = key.generation).map successionEdge)

/-- The walk to the current generation. -/
def descendants (c : Coordinator) : Nat → ReservationKey → List SupersessionEdge
  | 0, _ => []
  | hops + 1, cursor => match c.nextEdge cursor with
    | none => []
    | some edge => edge :: c.descendants hops ⟨edge.successor, edge.successorGeneration⟩

/-- `query_lineage`. -/
def queryLineage (c : Coordinator) (id : ReservationId) (generation : ReservationGeneration) :
    Result LineageView := do
  let effective ←
    if generation.val = 0 then match c.currentGeneration[id]? with
      | none => throw (makeError .notFound "reservation is not known to this coordinator")
      | some current => pure current
    else pure generation
  match c.findRecord id effective with
  | none => throw (makeError .notFound "the requested reservation generation does not exist")
  | some r =>
    let ancestry := c.ancestry lineageBound (predecessorKey r)
    let descendants := c.descendants lineageBound ⟨id, effective⟩
    pure
      { id
        generation := effective
        ancestry := ancestry.reverse
        descendants
        truncated := lineageBound ≤ ancestry.length || lineageBound ≤ descendants.length }

/-! ## Emergencies, counters and holds -/

/-- `overcommit_report`. -/
def overcommitReport (c : Coordinator) : OvercommitReport :=
  let entries := (c.overcommit.values.filter fun state => !state.resolved).map
    fun state : OvercommitState =>
      ({ resource := state.mutation.resource
         generation := state.mutation.generation
         committedPeak := state.mutation.committedPeak
         committableCeiling := state.mutation.ceiling
         window := state.mutation.window
         detectedAt := state.mutation.at' } : OvercommitEntry)
  { entries := entries.insertionSort fun a b => a.resource ≤ b.resource
    emergencyActive := !entries.isEmpty }

/-- `stats`, with the counters that the state leaves out. -/
def coordinatorStats (counters : CoordinatorStats) (c : Coordinator) : CoordinatorStats :=
  { counters with
    expiries := Word.cast 64 c.stats.expiries
    revocations := Word.cast 64 c.stats.revocations
    epoch := c.incarnation.epoch
    coordinatorBoot := c.incarnation.boot
    trackedReservations := Word.cast 64 c.records.size
    trackedSeries := Word.cast 64 c.seriesRecords.size
    liveHolds := Word.cast 64 (c.holds.values.countP fun hold => !hold.released)
    indexEntries := Word.cast 64 c.index.entryCount
    journalBytes := Word.cast 64 c.store.journalBytes
    snapshotSequence := Word.cast 64 c.store.snapshotSequence.val }

/-- `holds`: in the order of their creation. -/
def listHolds (c : Coordinator) : List HoldRecord :=
  c.holds.values.insertionSort fun a b =>
    if a.createdAt ≠ b.createdAt then a.createdAt < b.createdAt else a.id ≤ b.id

end Coordinator

end Brf
