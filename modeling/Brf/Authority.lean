import Brf.Time
import Mathlib.Data.List.Sort

/-!
# Provenance and the authority vector

Model of `include/brf/authority.hpp` and `src/authority.cpp`.

* `ResourceRef` and `FailureDomainRef` pin a name to one generation; both are ordered by name, then
  by generation, and `canonicalize` sorts a set of them and refuses a name at two generations.
* `AuthorityVector` is the exact set of generations that justified a decision.
* `Provenance` is the durable origin of a decision; its reason is sanitized by `sanitizeReason`.

Out of scope: `authority_fingerprint_bytes`, which no modelled function calls.
-/

namespace Brf

open Brf.Lib

/-- `kMaxBindingResources`. -/
def maxBindingResources : Nat := 64

/-- `kMaxProvenanceReasonBytes`. -/
def maxProvenanceReasonBytes : Nat := 512

/-- `std::sort` under the type's own order. -/
def sorted {α : Type} [LinearOrder α] (xs : List α) : List α := xs.insertionSort (· ≤ ·)

theorem sorted_perm {α : Type} [LinearOrder α] (xs : List α) : (sorted xs).Perm xs :=
  List.perm_insertionSort _ _

/-- `std::adjacent_find(…) != end` on a sorted list: some item occurs twice. -/
def hasAdjacentEqual {α : Type} [DecidableEq α] : List α → Bool
  | a :: b :: rest => a = b || hasAdjacentEqual (b :: rest)
  | _ => false

/-! ## Reason texts -/

/-- The loop of `sanitize_reason`: `room` bytes are left, `lastWasDot` is the flag it carries. -/
def sanitizeBytes : Text → Nat → Bool → Text
  | [], _, _ => []
  | _ :: _, 0, _ => []
  | b :: rest, room + 1, lastWasDot =>
    let normalized : Byte := if 0x20 ≤ b.val && b.val ≤ 0x7E then b else 46
    if normalized = 46 then
      if lastWasDot then sanitizeBytes rest (room + 1) true
      else normalized :: sanitizeBytes rest room true
    else normalized :: sanitizeBytes rest room false

/-- `sanitize_reason`: printable ASCII, no repeated or trailing dots, bounded length. -/
def sanitizeReason (text : Text) : Text :=
  ((sanitizeBytes text maxProvenanceReasonBytes false).reverse.dropWhile (· = 46)).reverse

theorem sanitizeBytes_length : ∀ (text : Text) (room : Nat) (dot : Bool),
    (sanitizeBytes text room dot).length ≤ room
  | [], _, _ => by simp [sanitizeBytes]
  | _ :: _, 0, _ => by simp [sanitizeBytes]
  | b :: rest, room + 1, dot => by
    have full := sanitizeBytes_length rest (room + 1) true
    have less := fun d => sanitizeBytes_length rest room d
    simp only [sanitizeBytes]
    split_ifs
    all_goals first
      | exact full
      | exact Nat.succ_le_succ (less _)

theorem sanitizeReason_length (text : Text) :
    (sanitizeReason text).length ≤ maxProvenanceReasonBytes := by
  have h := sanitizeBytes_length text maxProvenanceReasonBytes false
  have drop := (List.dropWhile_sublist (· = (46 : Byte))
    (l := (sanitizeBytes text maxProvenanceReasonBytes false).reverse)).length_le
  simp only [List.length_reverse] at drop
  simp only [sanitizeReason, List.length_reverse]
  omega

/-! ## Exact references -/

/-- `ResourceRef`: a resource name pinned to one generation. -/
@[ext] structure ResourceRef where
  resource : ResourceName := default
  generation : ResourceGeneration := 0
  deriving DecidableEq, Repr, Inhabited

/-- `FailureDomainRef`. -/
@[ext] structure FailureDomainRef where
  domain : FailureDomainName := default
  generation : FailureDomainGeneration := 0
  deriving DecidableEq, Repr, Inhabited

/-- The order of `ResourceRef`: by name, then by generation. -/
def ResourceRef.toPair (r : ResourceRef) : ResourceName ×ₗ ResourceGeneration :=
  toLex (r.resource, r.generation)

/-- The order of `FailureDomainRef`. -/
def FailureDomainRef.toPair (r : FailureDomainRef) :
    FailureDomainName ×ₗ FailureDomainGeneration :=
  toLex (r.domain, r.generation)

theorem ResourceRef.toPair_injective : Function.Injective ResourceRef.toPair := by
  intro a b h
  have h := Prod.ext_iff.mp (toLex.injective h)
  exact ResourceRef.ext h.1 h.2

theorem FailureDomainRef.toPair_injective : Function.Injective FailureDomainRef.toPair := by
  intro a b h
  have h := Prod.ext_iff.mp (toLex.injective h)
  exact FailureDomainRef.ext h.1 h.2

instance : LinearOrder ResourceRef := LinearOrder.lift' _ ResourceRef.toPair_injective

instance : LinearOrder FailureDomainRef := LinearOrder.lift' _ FailureDomainRef.toPair_injective

/-- The loop of both `canonicalize_*` functions over the sorted references that follow `prev`:
an equal neighbour is dropped, one with the same name and another generation is refused. -/
def dedupeAfter {α κ : Type} [DecidableEq α] [DecidableEq κ] (name : α → κ) (conflict : α → Error)
    (prev : α) : List α → Result (List α)
  | [] => .ok [prev]
  | next :: rest =>
    if name next = name prev then
      if next = prev then dedupeAfter name conflict prev rest else .error (conflict next)
    else do
      let tail ← dedupeAfter name conflict next rest
      pure (prev :: tail)

/-- The two `canonicalize_*` functions: bound, sort, then drop duplicates. -/
def canonicalize {α κ : Type} [LinearOrder α] [DecidableEq κ] (name : α → κ) (tooWide : Error)
    (conflict : α → Error) (refs : List α) : Result (List α) :=
  if maxBindingResources < refs.length then .error tooWide
  else match sorted refs with
    | [] => .ok []
    | first :: rest => dedupeAfter name conflict first rest

/-- `canonicalize_resources`. -/
def canonicalizeResources (refs : List ResourceRef) : Result (List ResourceRef) :=
  canonicalize ResourceRef.resource
    (makeError .resourceExhausted "resource set exceeds the maximum binding width")
    (fun r => ⟨.conflict, ascii "resource '" ++ r.resource.text ++
      ascii "' is bound to two different generations"⟩)
    refs

/-- `canonicalize_failure_domains`. -/
def canonicalizeFailureDomains (refs : List FailureDomainRef) : Result (List FailureDomainRef) :=
  canonicalize FailureDomainRef.domain
    (makeError .resourceExhausted "failure-domain set exceeds the maximum width")
    (fun _ => makeError .conflict "failure domain is bound to two different generations")
    refs

/-! ## Records of origin -/

/-- `BindingKind`: how a reservation reaches its resources. -/
inductive BindingKind where
  | resources | path
  deriving DecidableEq, Repr, Inhabited

instance : Enumeration BindingKind where
  all := [.resources, .path]
  complete x := by cases x <;> decide

/-- `Provenance`: durable origin of one authority-bearing decision. -/
structure Provenance where
  actor : ActorName := default
  publisher : PublisherId := 0
  publisherBoot : PublisherBootId := 0
  session : SessionId := 0
  attempt : AttemptId := 0
  fabricEpoch : FabricEpoch := 0
  coordinatorBoot : Identity128 := 0
  recordedAt : Timestamp := 0
  sequence : DurableSequence := 0
  reason : Text := []
  deriving DecidableEq, Repr, Inhabited

/-- `AuthorityVector`: the exact generations that justified a decision. -/
structure AuthorityVector where
  fabricEpoch : FabricEpoch := 0
  reservationGeneration : ReservationGeneration := 0
  claimant : ClaimantId := 0
  claimantGeneration : ClaimantGeneration := 0
  capacitySnapshot : CapacitySnapshotId := 0
  capacityGeneration : CapacitySnapshotGeneration := 0
  policy : PolicyName := default
  policyGeneration : PolicyGeneration := 0
  /-- Zero when the binding is not path-authorised. -/
  pathGeneration : PathAuthorityGeneration := 0
  resources : List ResourceRef := []
  failureDomains : List FailureDomainRef := []
  deriving DecidableEq, Repr, Inhabited

end Brf
