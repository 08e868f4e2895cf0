import Brf.Authority

/-!
# Capacity and path authority

Model of `include/brf/capacity.hpp` and `src/capacity.cpp`: the authoritative statements the
coordinator ingests, and the two ledgers that hold them.

* `CapacityLedger.apply` admits a statement for a resource: an unknown resource is added, the
  current generation may only be repeated (which re-declares a withdrawn resource), a lower
  generation is stale, a higher one replaces the entry and remembers the generation it replaced.
* `PathTable.apply` has the same rules for path authority.
* `isCurrent` is the test "bound to the generation in force of a resource that is not withdrawn".
-/

namespace Brf

open Brf.Lib

/-- `kMaxMaintenanceWindowsPerResource`. -/
def maxMaintenanceWindowsPerResource : Nat := 64

/-- `kMaxPathComponents`. -/
def maxPathComponents : Nat := 64

/-- `kMaxResourcesPerSnapshot`. -/
def maxResourcesPerSnapshot : Nat := 4096

/-- `MaintenanceWindow`: declared unavailability of a resource. -/
structure MaintenanceWindow where
  interval : Interval := {}
  reason : Text := []
  deriving DecidableEq, Repr, Inhabited

/-- `ResourceCapacity`: one authoritative statement for one resource generation. -/
structure ResourceCapacity where
  resource : ResourceName := default
  generation : ResourceGeneration := 0
  reservableCapacity : Bandwidth := 0
  protectedHeadroom : Bandwidth := 0
  failureDomain : FailureDomainName := default
  failureDomainGeneration : FailureDomainGeneration := 0
  maintenance : List MaintenanceWindow := []
  deriving DecidableEq, Repr, Inhabited

namespace ResourceCapacity

/-- `ResourceCapacity::committable_ceiling`. -/
def committableCeiling (c : ResourceCapacity) : Bandwidth :=
  if c.reservableCapacity ≤ c.protectedHeadroom then 0
  else I64.wrap (c.reservableCapacity.val - c.protectedHeadroom.val)

/-- `CapacityLedger::maintenance_covers`: the first window that overlaps the interval. -/
def maintenanceCovers (c : ResourceCapacity) (i : Interval) : Option Interval :=
  (c.maintenance.find? fun w => w.interval.overlaps i).map MaintenanceWindow.interval

end ResourceCapacity

/-- `CapacitySnapshot`: the statements of one ingestion. -/
structure CapacitySnapshot where
  id : CapacitySnapshotId := 0
  generation : CapacitySnapshotGeneration := 0
  fabricEpoch : FabricEpoch := 0
  ingestedAt : Timestamp := 0
  /-- When set, known resources the snapshot leaves out are withdrawn. -/
  complete : Bool := true
  resources : List ResourceCapacity := []
  deriving DecidableEq, Repr, Inhabited

/-- `PathAuthority`: the resources a path traverses, under one generation. -/
structure PathAuthority where
  path : PathName := default
  generation : PathAuthorityGeneration := 0
  components : List ResourceName := []
  issuedAt : Timestamp := 0
  retired : Bool := false
  deriving DecidableEq, Repr, Inhabited

/-- `operator==` of path authorities: every field but `issued_at`. -/
def PathAuthority.same (a b : PathAuthority) : Bool := a = { b with issuedAt := a.issuedAt }

/-- `PathAuthoritySnapshot`. -/
structure PathAuthoritySnapshot where
  id : CapacitySnapshotId := 0
  generation : CapacitySnapshotGeneration := 0
  fabricEpoch : FabricEpoch := 0
  ingestedAt : Timestamp := 0
  complete : Bool := true
  paths : List PathAuthority := []
  deriving DecidableEq, Repr, Inhabited

/-! ## The capacity ledger -/

/-- `CapacityLedger::Entry`. -/
structure CapacityEntry where
  capacity : ResourceCapacity := {}
  snapshot : CapacitySnapshotId := 0
  ingestedAt : Timestamp := 0
  withdrawn : Bool := false
  withdrawnAt : Timestamp := 0
  priorGenerations : List ResourceGeneration := []
  deriving DecidableEq, Repr, Inhabited

/-- `CapacityLedger`. -/
abbrev CapacityLedger := Map ResourceName CapacityEntry

/-- The structural checks at the head of `CapacityLedger::apply`. -/
def validateCapacity (c : ResourceCapacity) : Result Unit := do
  refuse c.resource.empty .invalidName "capacity record has an empty resource name"
  refuse (c.reservableCapacity.val ≤ 0) .invalidBandwidth
    "reservable capacity must be strictly positive"
  refuse (maxBandwidthBps < c.reservableCapacity.val) .invalidBandwidth
    "reservable capacity exceeds the representable range"
  refuse (c.protectedHeadroom.val < 0 || maxBandwidthBps < c.protectedHeadroom.val)
    .invalidBandwidth "protected headroom is out of range"
  refuse (maxMaintenanceWindowsPerResource < c.maintenance.length) .resourceExhausted
    "too many maintenance windows for one resource"
  c.maintenance.forM fun w => validateInterval w.interval

namespace CapacityLedger

/-- `CapacityLedger::apply`: the new ledger and whether authoritative state changed. -/
def apply (ledger : CapacityLedger) (capacity : ResourceCapacity) (snapshot : CapacitySnapshotId)
    (now : Timestamp) : Result (Bool × CapacityLedger) := do
  validateCapacity capacity
  match ledger[capacity.resource]? with
  | none => pure (true, ledger.insert capacity.resource { capacity, snapshot, ingestedAt := now })
  | some entry =>
    if capacity.generation = entry.capacity.generation then
      if capacity = entry.capacity then
        if entry.withdrawn then
          pure (true, ledger.insert capacity.resource
            { entry with withdrawn := false, snapshot, ingestedAt := now })
        else pure (false, ledger)
      else throw ⟨.conflict, ascii "resource '" ++ capacity.resource.text ++
        ascii "' was re-declared at the same generation with different content"⟩
    else if capacity.generation < entry.capacity.generation then
      throw ⟨.staleGeneration, ascii "resource '" ++ capacity.resource.text ++
        ascii "' was offered a stale capacity generation"⟩
    else
      pure (true, ledger.insert capacity.resource
        { capacity
          snapshot
          ingestedAt := now
          priorGenerations := entry.priorGenerations ++ [entry.capacity.generation] })

/-- A statement that changes nothing leaves the ledger. -/
theorem apply_unchanged {ledger ledger' : CapacityLedger} {capacity : ResourceCapacity}
    {snapshot : CapacitySnapshotId} {now : Timestamp}
    (ok : ledger.apply capacity snapshot now = .ok (false, ledger')) : ledger' = ledger := by
  unfold apply at ok
  obtain ⟨⟨⟩, -, ok⟩ := Result.bind_eq_ok.mp ok
  cases there : ledger[capacity.resource]? with
  | none =>
    rw [there] at ok
    cases ok
  | some entry =>
    rw [there] at ok
    dsimp only at ok
    split at ok
    · split at ok
      · split at ok
        · cases ok
        · exact (Prod.mk.inj (Except.ok.inj ok)).2.symm
      · cases ok
    · split at ok <;> cases ok

/-- `CapacityLedger::withdraw`. -/
def withdraw (ledger : CapacityLedger) (resource : ResourceName) (now : Timestamp) :
    Result CapacityLedger :=
  match ledger[resource]? with
  | none => .error ⟨.notFound, ascii "resource '" ++ resource.text ++
      ascii "' is not known to the ledger"⟩
  | some entry =>
    if entry.withdrawn then .ok ledger
    else .ok (ledger.insert resource { entry with withdrawn := true, withdrawnAt := now })

/-- `CapacityLedger::is_current`. -/
def isCurrent (ledger : CapacityLedger) (ref : ResourceRef) : Bool :=
  match ledger[ref.resource]? with
  | none => false
  | some entry => !entry.withdrawn && entry.capacity.generation = ref.generation

/-- `CapacityLedger::is_current_failure_domain`: the first resource of the domain decides. -/
def isCurrentFailureDomain (ledger : CapacityLedger) (ref : FailureDomainRef) : Bool :=
  match ledger.values.find? fun e => !e.withdrawn && e.capacity.failureDomain = ref.domain with
  | none => false
  | some entry => entry.capacity.failureDomainGeneration = ref.generation

/-- `CapacityLedger::resource_names`. -/
def resourceNames (ledger : CapacityLedger) : List ResourceName := ledger.keys

end CapacityLedger

/-! ## The path table -/

/-- `PathAuthorityTable::Entry`. -/
structure PathEntry where
  path : PathAuthority := {}
  snapshot : CapacitySnapshotId := 0
  ingestedAt : Timestamp := 0
  retired : Bool := false
  priorGenerations : List PathAuthorityGeneration := []
  deriving DecidableEq, Repr, Inhabited

/-- `PathAuthorityTable`. -/
abbrev PathTable := Map PathName PathEntry

/-- The structural checks at the head of `PathAuthorityTable::apply`. -/
def validatePath (p : PathAuthority) : Result Unit := do
  refuse p.path.empty .invalidName "path authority record has an empty path name"
  refuse p.components.isEmpty .invalidArgument "path authority record has no components"
  refuse (maxPathComponents < p.components.length) .resourceExhausted
    "path exceeds the maximum component count"
  refuse (hasAdjacentEqual (sorted p.components)) .conflict "path contains a duplicate component"

namespace PathTable

/-- `PathAuthorityTable::apply`: the new table and whether authoritative state changed. -/
def apply (table : PathTable) (path : PathAuthority) (snapshot : CapacitySnapshotId)
    (now : Timestamp) : Result (Bool × PathTable) := do
  validatePath path
  match table[path.path]? with
  | none => pure (true, table.insert path.path
      { path, snapshot, ingestedAt := now, retired := path.retired })
  | some entry =>
    if path.generation = entry.path.generation then
      if path.same entry.path then
        if entry.retired = path.retired then pure (false, table)
        else pure (true, table.insert path.path { entry with retired := path.retired })
      else throw ⟨.conflict, ascii "path '" ++ path.path.text ++
        ascii "' was re-declared at the same generation with different content"⟩
    else if path.generation < entry.path.generation then
      throw ⟨.staleGeneration, ascii "path '" ++ path.path.text ++
        ascii "' was offered a stale authority generation"⟩
    else
      pure (true, table.insert path.path
        { path
          snapshot
          ingestedAt := now
          retired := path.retired
          priorGenerations := entry.priorGenerations ++ [entry.path.generation] })

/-- A statement that changes nothing leaves the table. -/
theorem apply_unchanged {table table' : PathTable} {path : PathAuthority}
    {snapshot : CapacitySnapshotId} {now : Timestamp}
    (ok : table.apply path snapshot now = .ok (false, table')) : table' = table := by
  unfold apply at ok
  obtain ⟨⟨⟩, -, ok⟩ := Result.bind_eq_ok.mp ok
  cases there : table[path.path]? with
  | none =>
    rw [there] at ok
    cases ok
  | some entry =>
    rw [there] at ok
    dsimp only at ok
    split at ok
    · split at ok
      · split at ok
        · exact (Prod.mk.inj (Except.ok.inj ok)).2.symm
        · cases ok
      · cases ok
    · split at ok <;> cases ok

/-- `PathAuthorityTable::retire`, which no operation of the coordinator calls. -/
def retire (table : PathTable) (path : PathName) (now : Timestamp) : Result PathTable :=
  match table[path]? with
  | none => .error ⟨.notFound, ascii "path '" ++ path.text ++
      ascii "' is not known to the path authority table"⟩
  | some entry =>
    if entry.retired then .ok table
    else .ok (table.insert path { entry with retired := true, ingestedAt := now })

/-- `PathAuthorityTable::is_current`. -/
def isCurrent (table : PathTable) (path : PathName) (generation : PathAuthorityGeneration) :
    Bool :=
  match table[path]? with
  | none => false
  | some entry => !entry.retired && entry.path.generation = generation

end PathTable

end Brf
