import Brf.Time

/-!
# Policies

Model of `include/brf/policy.hpp` and `src/policy.cpp`.

* `PolicyRecord` is one immutable, generation-stamped policy statement; `PolicyRecord.same` is its
  `operator==`, which leaves the ingestion instant out.
* `validatePolicy` is the structural check; `PolicyRegistry.apply` adds the generation rules: a
  generation is never redeclared with other content and never goes back.

Out of scope: the textual spelling of guarantee classes.
-/

namespace Brf

open Brf.Lib

/-- `GuaranteeClass`, from weakest to strongest. -/
inductive GuaranteeClass where
  | scavenger | preemptible | «protected» | guaranteed
  deriving DecidableEq, Repr, Inhabited

instance : Enumeration GuaranteeClass where
  all := [.scavenger, .preemptible, .«protected», .guaranteed]
  complete x := by cases x <;> decide

/-- The numeric order of the classes. -/
def GuaranteeClass.rank : GuaranteeClass → Nat
  | .scavenger => 0
  | .preemptible => 1
  | .«protected» => 2
  | .guaranteed => 3

/-- `kMaxPriority`. -/
def maxPriority : Nat := 1000

/-- `kMaxPolicyLabels`. -/
def maxPolicyLabels : Nat := 16

/-- `kMaxLabelBytes`. -/
def maxLabelBytes : Nat := 64

/-- `PolicyRecord`. -/
structure PolicyRecord where
  name : PolicyName := default
  generation : PolicyGeneration := 0
  ingestedAt : Timestamp := 0
  allowRecallGuaranteed : Bool := false
  allowRecallProtected : Bool := true
  allowPreemptionOnCommit : Bool := false
  maxPreemptionVictims : Word 32 := 0
  defaultRecallGrace : Duration := 0
  allowOvercommit : Bool := false
  overcommitAllowance : Bandwidth := 0
  minimumReservationAmount : Bandwidth := 0
  allowPastStart : Bool := false
  maxFutureHorizon : Duration := 0
  maxExtraHeadroom : Bandwidth := 0
  autoRevalidateOnGenerationChange : Bool := false
  policyHeadroom : Bandwidth := 0
  maxConflictSet : Word 32 := 64
  maxExplanationBytes : Word 32 := 4096
  maxSeriesMembers : Word 32 := 64
  maxHoldTtl : Duration := 0
  maxHoldsPerSession : Word 32 := 32
  maxHoldBandwidth : Bandwidth := 0
  deriving DecidableEq, Repr, Inhabited

namespace PolicyRecord

/-- `PolicyRecord::materially_differs`. -/
def materiallyDiffers (a b : PolicyRecord) : Bool :=
  a.allowRecallGuaranteed != b.allowRecallGuaranteed ||
  a.allowRecallProtected != b.allowRecallProtected ||
  a.allowPreemptionOnCommit != b.allowPreemptionOnCommit ||
  a.maxPreemptionVictims != b.maxPreemptionVictims ||
  a.allowOvercommit != b.allowOvercommit ||
  a.overcommitAllowance != b.overcommitAllowance ||
  a.autoRevalidateOnGenerationChange != b.autoRevalidateOnGenerationChange ||
  a.policyHeadroom != b.policyHeadroom ||
  a.minimumReservationAmount != b.minimumReservationAmount

/-- `operator==` of policy records: every field but `ingested_at`. -/
def same (a b : PolicyRecord) : Bool := a = { b with ingestedAt := a.ingestedAt }

/-- `PolicyRegistry::strict_default`: the policy of a name nobody declared. -/
def strictDefault (name : PolicyName) : PolicyRecord :=
  { name := name
    generation := 1
    maxHoldTtl := I64.wrap (5 * nsPerSecond)
    maxHoldsPerSession := 16
    maxHoldBandwidth := I64.wrap 1000000000 }

end PolicyRecord

/-- A bandwidth field of a policy lies in `[0, kMaxBandwidthBps]`. -/
def bandwidthOutOfRange (b : Bandwidth) : Bool := b.val < 0 || maxBandwidthBps < b.val

/-- A span field of a policy lies in `[0, kMaxReservationSpanNs]`. -/
def spanOutOfRange (d : Duration) : Bool := d.val < 0 || maxReservationSpanNs < d.val

/-- `validate_policy`. -/
def validatePolicy (r : PolicyRecord) : Result Unit := do
  refuse r.name.empty .invalidName "policy record has an empty name"
  refuse (r.maxConflictSet.val = 0 || 4096 < r.maxConflictSet.val) .invalidArgument
    "max_conflict_set must be within [1, 4096]"
  refuse (r.maxExplanationBytes.val < 128 || 65536 < r.maxExplanationBytes.val) .invalidArgument
    "max_explanation_bytes must be within [128, 65536]"
  refuse (r.maxSeriesMembers.val = 0 || 4096 < r.maxSeriesMembers.val) .invalidArgument
    "max_series_members must be within [1, 4096]"
  refuse (4096 < r.maxHoldsPerSession.val) .invalidArgument
    "max_holds_per_session is unreasonably large"
  refuse (1024 < r.maxPreemptionVictims.val) .invalidArgument
    "max_preemption_victims is unreasonably large"
  refuse (bandwidthOutOfRange r.overcommitAllowance) .invalidBandwidth
    "overcommit allowance is out of range"
  refuse (bandwidthOutOfRange r.policyHeadroom) .invalidBandwidth "policy headroom is out of range"
  refuse (bandwidthOutOfRange r.maxExtraHeadroom) .invalidBandwidth
    "maximum extra headroom is out of range"
  refuse (bandwidthOutOfRange r.minimumReservationAmount) .invalidBandwidth
    "minimum reservation amount is out of range"
  refuse (bandwidthOutOfRange r.maxHoldBandwidth) .invalidBandwidth
    "maximum hold bandwidth is out of range"
  refuse (spanOutOfRange r.maxFutureHorizon) .invalidInterval
    "maximum future horizon is out of range"
  refuse (spanOutOfRange r.defaultRecallGrace) .invalidInterval
    "default recall grace is out of range"
  refuse (spanOutOfRange r.maxHoldTtl) .invalidInterval "maximum hold TTL is out of range"

/-- `PolicyRegistry::Entry`. -/
structure PolicyEntry where
  record : PolicyRecord := {}
  priorGenerations : List PolicyGeneration := []
  ingestedAt : Timestamp := 0
  deriving DecidableEq, Repr, Inhabited

/-- `PolicyRegistry`. -/
abbrev PolicyRegistry := Map PolicyName PolicyEntry

namespace PolicyRegistry

/-- `PolicyRegistry::current`. -/
def current (registry : PolicyRegistry) (name : PolicyName) : Option PolicyRecord :=
  registry[name]?.map PolicyEntry.record

/-- `PolicyRegistry::apply`: the new registry and whether authoritative state changed. -/
def apply (registry : PolicyRegistry) (record : PolicyRecord) :
    Result (Bool × PolicyRegistry) := do
  validatePolicy record
  match registry[record.name]? with
  | none => pure (true, registry.insert record.name { record, ingestedAt := record.ingestedAt })
  | some entry =>
    if record.generation = entry.record.generation then
      if record.same entry.record then pure (false, registry)
      else throw ⟨.conflict, ascii "policy '" ++ record.name.text ++
        ascii "' was re-declared at the same generation with different content"⟩
    else if record.generation < entry.record.generation then
      throw ⟨.staleGeneration, ascii "policy '" ++ record.name.text ++
        ascii "' was offered a stale generation"⟩
    else
      pure (true, registry.insert record.name
        { record
          ingestedAt := record.ingestedAt
          priorGenerations := entry.priorGenerations ++ [entry.record.generation] })

end PolicyRegistry

end Brf
