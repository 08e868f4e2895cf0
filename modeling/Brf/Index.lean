import Brf.Lib.RangeTree
import Brf.Reservation
import Mathlib.Data.List.Destutter

/-!
# The capacity index

Model of `include/brf/index.hpp` and `src/index.cpp`.

* `IntervalIndex` (`IntervalCapacityIndex`) is the segment tree of one resource and one kind of
  occupancy, over the timeline `[0, kMaxTimestampNs)`. The source drops the whole tree when the last
  interval leaves; that is `RangeTree.untouched` here, as opposed to the root of a new index.
* `ResourceState` keeps the trees of committed, held and combined occupancy and the entries
  themselves in start order (`by_start`, a multimap: equal starts keep insertion order).
* `CapacityIndex` adds the bookkeeping key of every entry. Its methods are operations that report a
  status and keep what they changed before failing.
-/

namespace Brf

open Brf.Lib

/-! ## One tree -/

/-- `kIndexSaturation`. -/
def indexSaturation : Int := 4611686018427387904

/-- `kNoValue`. -/
def noValue : Int := -9223372036854775808

/-- The levels of a tree over the timeline: `kMaxTimestampNs ≤ 2 ^ 62`. -/
def treeFuel : Nat := 63

/-- `IntervalCapacityIndex`. -/
structure IntervalIndex where
  tree : RangeTree := RangeTree.fresh
  liveIntervals : Nat := 0
  deriving DecidableEq, Repr, Inhabited

namespace IntervalIndex

/-- `Impl::add` from the root. -/
def addTree (t : RangeTree) (i : Interval) (delta : Int) : RangeTree :=
  RangeTree.add indexSaturation treeFuel t 0 maxTimestampNs i.start.val i.stop.val delta

/-- `IntervalCapacityIndex::add`. -/
def add (x : IntervalIndex) (i : Interval) (amount : Bandwidth) : IntervalIndex :=
  if i.empty || amount.val = 0 then x
  else ⟨addTree x.tree.touch i amount.val, x.liveIntervals + 1⟩

/-- `IntervalCapacityIndex::remove`: the tree is dropped with its last interval. -/
def remove (x : IntervalIndex) (i : Interval) (amount : Bandwidth) : IntervalIndex :=
  if i.empty || amount.val = 0 then x
  else if x.tree = .untouched then x
  else
    let live := x.liveIntervals - 1
    if live = 0 then ⟨.untouched, 0⟩ else ⟨addTree x.tree i (-amount.val), live⟩

/-- `Impl::query` from the root. -/
def queryTree (t : RangeTree) (lo hi : Int) : Int :=
  if t = .untouched then 0
  else
    let value := RangeTree.query indexSaturation noValue t 0 maxTimestampNs lo hi 0
    if value = noValue then 0 else value

/-- `IntervalCapacityIndex::peak`. -/
def peak (x : IntervalIndex) (window : Interval) : Bandwidth :=
  if window.empty then 0 else I64.wrap (queryTree x.tree window.start.val window.stop.val)

/-- `IntervalCapacityIndex::at`. -/
def at' (x : IntervalIndex) (instant : Timestamp) : Bandwidth :=
  if instant.val < 0 || maxTimestampNs ≤ instant.val then 0
  else I64.wrap (queryTree x.tree instant.val (instant.val + 1))

/-- `IntervalCapacityIndex::exceeds`. -/
def exceeds (x : IntervalIndex) (window : Interval) (limit : Bandwidth) : Bool :=
  if window.empty then false
  else if x.tree = .untouched then false
  else RangeTree.exceeds indexSaturation limit.val x.tree 0 maxTimestampNs window.start.val
    window.stop.val 0

end IntervalIndex

/-! ## Entries -/

/-- `HolderKind`: why an entry occupies capacity. -/
inductive HolderKind where
  | reservation | hold
  deriving DecidableEq, Repr, Inhabited

/-- The numeric order of the kinds. -/
def HolderKind.rank : HolderKind → Nat
  | .reservation => 0
  | .hold => 1

theorem HolderKind.rank_injective : Function.Injective HolderKind.rank := by
  intro a b h
  cases a <;> cases b <;> simp_all [rank]

/-- `IndexEntry`: one capacity-occupying interval on one resource. -/
structure IndexEntry where
  kind : HolderKind := .reservation
  id : Identity128 := 0
  holderGeneration : Counter := 0
  resource : ResourceName := default
  interval : Interval := {}
  amount : Bandwidth := 0
  guarantee : GuaranteeClass := .guaranteed
  state : ReservationState := .committed
  deriving DecidableEq, Repr, Inhabited

/-- `EntryIdentity`: the key under which an entry is unique. -/
@[ext] structure EntryIdentity where
  kind : HolderKind
  id : Identity128
  resource : ResourceName
  deriving DecidableEq

/-- The order of `EntryIdentity`. -/
def EntryIdentity.toTriple (e : EntryIdentity) : Nat ×ₗ (Identity128 ×ₗ ResourceName) :=
  toLex (e.kind.rank, toLex (e.id, e.resource))

theorem EntryIdentity.toTriple_injective : Function.Injective EntryIdentity.toTriple := by
  intro a b h
  have h := Prod.ext_iff.mp (toLex.injective h)
  have h' := Prod.ext_iff.mp (toLex.injective h.2)
  exact EntryIdentity.ext (HolderKind.rank_injective h.1) h'.1 h'.2

instance : LinearOrder EntryIdentity := LinearOrder.lift' _ EntryIdentity.toTriple_injective

/-- The key of an entry. -/
def IndexEntry.identity (e : IndexEntry) : EntryIdentity := ⟨e.kind, e.id, e.resource⟩

/-- `CapacityIndex::ResourceState`. -/
structure ResourceState where
  committed : IntervalIndex := {}
  holds : IntervalIndex := {}
  combined : IntervalIndex := {}
  byStart : List IndexEntry := []
  entryCount : Nat := 0
  deriving DecidableEq, Repr, Inhabited

namespace ResourceState

/-- `std::multimap::emplace`: after the entries with the same start. -/
def emplace (e : IndexEntry) : List IndexEntry → List IndexEntry
  | [] => [e]
  | x :: xs => if e.interval.start < x.interval.start then e :: x :: xs else x :: emplace e xs

/-- The trees of an entry's kind and the combined tree gain the entry. -/
def addTrees (s : ResourceState) (e : IndexEntry) : ResourceState :=
  match e.kind with
  | .reservation => { s with
      committed := s.committed.add e.interval e.amount
      combined := s.combined.add e.interval e.amount }
  | .hold => { s with
      holds := s.holds.add e.interval e.amount
      combined := s.combined.add e.interval e.amount }

/-- The trees of an entry's kind and the combined tree lose the entry. -/
def removeTrees (s : ResourceState) (e : IndexEntry) : ResourceState :=
  match e.kind with
  | .reservation => { s with
      committed := s.committed.remove e.interval e.amount
      combined := s.combined.remove e.interval e.amount }
  | .hold => { s with
      holds := s.holds.remove e.interval e.amount
      combined := s.combined.remove e.interval e.amount }

/-- An entry enters the state. -/
def insert (s : ResourceState) (e : IndexEntry) : ResourceState :=
  let s := s.addTrees e
  { s with byStart := emplace e s.byStart, entryCount := s.entryCount + 1 }

/-- The first entry that `p` picks leaves the state. -/
def removeFirst (s : ResourceState) (p : IndexEntry → Bool) : Option ResourceState :=
  match s.byStart.find? p with
  | none => none
  | some e =>
    let s := s.removeTrees e
    some { s with byStart := s.byStart.eraseP p, entryCount := s.entryCount - 1 }

/-- Every entry that `p` picks leaves the state, in order. -/
def removeEvery (s : ResourceState) (p : IndexEntry → Bool) : ResourceState :=
  let s' := (s.byStart.filter p).foldl removeTrees s
  { s' with
    byStart := s.byStart.filter fun e => !p e
    entryCount := s.entryCount - (s.byStart.filter p).length }

end ResourceState

/-! ## The index -/

/-- `CapacityIndex`. -/
structure CapacityIndex where
  resources : Map ResourceName ResourceState := ∅
  entries : Map EntryIdentity Timestamp := ∅
  entryCount : Nat := 0

/-- `ChangePoint`: what is occupied from an instant on, which is the source's `at`. -/
structure ChangePoint where
  instant : Timestamp := 0
  committed : Bandwidth := 0
  holds : Bandwidth := 0
  deriving DecidableEq, Repr, Inhabited

/-- The answer of `timeline`. -/
structure Timeline where
  points : List ChangePoint := []
  truncated : Bool := false
  deriving DecidableEq, Repr, Inhabited

namespace CapacityIndex

/-- A method of the index. -/
abbrev Method := Op Error CapacityIndex

/-- `CapacityIndex::insert`. -/
def insert (e : IndexEntry) : Method Unit := do
  Op.refuseIf e.interval.empty (makeError .invalidInterval "index entry has an empty interval")
  Op.refuseIf (e.amount.val ≤ 0)
    (makeError .invalidBandwidth "index entry has a non-positive amount")
  Op.refuseIf e.resource.empty (makeError .invalidName "index entry has an empty resource name")
  let x ← get
  Op.refuseIf (x.entries[e.identity]?.isSome)
    (makeError .alreadyExists "index entry already exists for this holder and resource")
  set { x with
    resources := x.resources.insert e.resource (x.resources[e.resource]?.getD {} |>.insert e)
    entries := x.entries.insert e.identity e.interval.start
    entryCount := x.entryCount + 1 }

/-- A resource without entries leaves the index. -/
def dropIfEmpty (resources : Map ResourceName ResourceState) (resource : ResourceName) :
    Map ResourceName ResourceState :=
  match resources[resource]? with
  | some s => if s.entryCount = 0 then resources.erase resource else resources
  | none => resources

/-- `CapacityIndex::erase`: one entry of one holder generation. -/
def erase (kind : HolderKind) (id : Identity128) (generation : Counter)
    (resource : ResourceName) : Method Unit := do
  let x ← get
  let identity : EntryIdentity := ⟨kind, id, resource⟩
  match x.entries[identity]? with
  | none => throw (makeError .notFound "index entry does not exist")
  | some start =>
    match x.resources[resource]? with
    | none => throw (makeError .internal "index bookkeeping is inconsistent")
    | some state =>
      match state.removeFirst fun e => e.interval.start = start && e.id = id &&
          e.holderGeneration = generation && e.kind = kind with
      | none => throw (makeError .internal "index entry vanished from the interval map")
      | some state' =>
        set { x with
          resources := dropIfEmpty (x.resources.insert resource state') resource
          entries := x.entries.erase identity
          entryCount := x.entryCount - 1 }

/-- The entry belongs to a holder. -/
def heldBy (kind : HolderKind) (id : Identity128) (e : IndexEntry) : Bool :=
  e.kind = kind && e.id = id

/-- The bookkeeping keys of a holder, in key order. -/
def keysOf (x : CapacityIndex) (kind : HolderKind) (id : Identity128) :
    List (EntryIdentity × Timestamp) :=
  x.entries.toList.filter fun p => p.1.kind = kind && p.1.id = id

/-- The first loop of `erase_all`: the keyed entry of each resource, counting the removed ones. -/
def eraseKeyed (kind : HolderKind) (id : Identity128)
    (acc : Map ResourceName ResourceState × Nat) (key : EntryIdentity × Timestamp) :
    Map ResourceName ResourceState × Nat :=
  match acc.1[key.1.resource]? with
  | none => acc
  | some state =>
    match state.removeFirst fun e => e.interval.start = key.2 && heldBy kind id e with
    | none => acc
    | some state' => (acc.1.insert key.1.resource state', acc.2 + 1)

/-- The sweep of `erase_all`: entries of the holder that have no key. -/
def sweep (kind : HolderKind) (id : Identity128) (acc : Map ResourceName ResourceState × Nat)
    (resource : ResourceName) : Map ResourceName ResourceState × Nat :=
  match acc.1[resource]? with
  | none => acc
  | some state =>
    (acc.1.insert resource (state.removeEvery (heldBy kind id)),
      acc.2 + (state.byStart.filter (heldBy kind id)).length)

/-- `CapacityIndex::erase_all`: every entry of a holder, whatever its generation. -/
def eraseAll (kind : HolderKind) (id : Identity128) : Method Unit := do
  let x ← get
  let keys := x.keysOf kind id
  let touched := (keys.filter fun k => x.resources[k.1.resource]?.isSome).map (·.1.resource)
  let keyed := keys.foldl (eraseKeyed kind id) (x.resources, 0)
  let (resources, removed) := touched.foldl (sweep kind id) keyed
  let entries := keys.foldl (fun m k => m.erase k.1) x.entries
  set { x with resources, entries }
  Op.refuseIf (removed = 0) (makeError .notFound "index entry does not exist")
  set { resources := touched.foldl dropIfEmpty resources
        entries
        entryCount := x.entryCount - removed : CapacityIndex }

/-- `CapacityIndex::replace_all`. -/
def replaceAll (kind : HolderKind) (id : Identity128) (entries : List IndexEntry) :
    Method Unit := do
  match ← Op.attempt (eraseAll kind id) with
  | .ok () => pure ()
  | .error e => Op.refuseIf (e.code ≠ .notFound) e
  Op.each insert entries

/-- `CapacityIndex::contains`. -/
def contains (x : CapacityIndex) (kind : HolderKind) (id : Identity128) : Bool :=
  !(x.keysOf kind id).isEmpty

/-- `CapacityIndex::find_all`: the entries of a holder by resource name. -/
def findAll (x : CapacityIndex) (kind : HolderKind) (id : Identity128) : List IndexEntry :=
  ((x.keysOf kind id).filterMap fun key => do
    let state ← x.resources[key.1.resource]?
    state.byStart.find? fun e => e.interval.start = key.2 && heldBy kind id e
  ).insertionSort fun a b => a.resource ≤ b.resource

/-- `CapacityIndex::peak_committed`. -/
def peakCommitted (x : CapacityIndex) (resource : ResourceName) (window : Interval) : Bandwidth :=
  match x.resources[resource]? with
  | none => 0
  | some state => state.committed.peak window

/-- `CapacityIndex::peak_holds`. -/
def peakHolds (x : CapacityIndex) (resource : ResourceName) (window : Interval) : Bandwidth :=
  match x.resources[resource]? with
  | none => 0
  | some state => state.holds.peak window

/-- `CapacityIndex::peak_combined`. -/
def peakCombined (x : CapacityIndex) (resource : ResourceName) (window : Interval) : Bandwidth :=
  match x.resources[resource]? with
  | none => 0
  | some state => state.combined.peak window

/-- The order in which `overlapping` reports entries. -/
def reportOrder (a b : IndexEntry) : Bool :=
  if a.interval.start ≠ b.interval.start then a.interval.start < b.interval.start
  else if a.interval.stop ≠ b.interval.stop then a.interval.stop < b.interval.stop
  else if a.id ≠ b.id then a.id < b.id
  else a.resource ≤ b.resource

/-- The answer of `overlapping`: a bounded list, the matches among the scanned entries, and whether
anything was left out. -/
structure Overlaps where
  entries : List IndexEntry := []
  total : Nat := 0
  truncated : Bool := false

/-- `CapacityIndex::overlapping`. -/
def overlapping (x : CapacityIndex) (resource : ResourceName) (window : Interval)
    (outputLimit scanLimit : Nat) : Overlaps :=
  match x.resources[resource]? with
  | none => {}
  | some state =>
    if window.empty then {}
    else
      let before := state.byStart.takeWhile fun e => e.interval.start < window.stop
      let matched := (before.take scanLimit).filter fun e => window.start < e.interval.stop
      let out := matched.take outputLimit
      { entries := out.insertionSort fun a b => reportOrder a b
        total := matched.length
        truncated := scanLimit < before.length || out.length < matched.length }

/-- The loop of `timeline`: the ends of the entries, clipped to the window, and whether it stopped
because there are too many. -/
def boundaries (window : Interval) (limit : Nat) :
    List Timestamp → List IndexEntry → List Timestamp × Bool
  | found, [] => (found, false)
  | found, e :: rest =>
    if ¬ e.interval.start < window.stop then (found, false)
    else if e.interval.stop ≤ window.start then boundaries window limit found rest
    else
      let found := found ++
        [if e.interval.start < window.start then window.start else e.interval.start,
          if window.stop < e.interval.stop then window.stop else e.interval.stop]
      if limit < found.length then (found, true) else boundaries window limit found rest

/-- `CapacityIndex::timeline`. -/
def timeline (x : CapacityIndex) (resource : ResourceName) (window : Interval) (maxPoints : Nat) :
    Timeline :=
  match x.resources[resource]? with
  | none => {}
  | some state =>
    if window.empty then {}
    else
      let (found, stopped) :=
        boundaries window ((maxPoints + 2) * 2) [window.start] state.byStart
      let instants := (found.insertionSort fun a b => a ≤ b).destutter fun a b => a ≠ b
      let kept := (instants.take (maxPoints + 1)).filter fun t =>
        !(t < window.start || window.stop ≤ t)
      { points := kept.map fun t => ⟨t, state.committed.at' t, state.holds.at' t⟩
        truncated := stopped || maxPoints + 1 < instants.length }

end CapacityIndex

end Brf
