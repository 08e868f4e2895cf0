import Brf.Tables

/-!
# The generations of claimants

The registry holds the last generation each claimant has been registered with. Create, amend,
`acquire_hold` and `register_claimant` present the generation of their terms or arguments to it, and a
release that of its context.

* `Request.presented`: the generations an operation presents to the registry.
* `Request.carried`: those, and the one its context asserts.
* `Coordinator.outdated`: a later generation is registered.
* `Known c r`: `r` is a record of `c`, in whatever state.
* `Stamped c r`: the authority of `r` names the generation registered for its claimant.

Results: `claimant_generations` (registered generations never decrease, a request that presents an
outdated one changes nothing, and commits are stamped with the registered one), and
`asserted_generation_ignored`.
-/

namespace Brf

open Brf.Lib

namespace Request

/-- The context of a request, if it has one. -/
def context : Request → Option RequestContext
  | .ingestCapacity _ _ _ context | .ingestPaths _ _ context | .ingestPolicy _ _ context
  | .registerClaimant _ _ _ context | .fence _ context .. | .create _ context .. | .amend _ context ..
  | .release _ context .. | .«recall» _ context .. | .revoke _ context .. | .revalidate _ context ..
  | .reconcileLifecycle _ context | .reconcileAttempt context _ | .acquireHold _ context ..
  | .releaseHold _ context .. | .releaseSession _ context | .resolveOvercommit _ context .. =>
    some context
  | .getReservation .. | .queryClaimant .. | .queryResource .. | .queryRemaining ..
  | .explainConflicts .. | .compact | .flush | .beginShutdown _ => none

/-- The claimant generation that a context asserts. -/
def asserted (context : RequestContext) : List (ClaimantId × ClaimantGeneration) :=
  if context.claimant.isNil then [] else [(context.claimant, context.claimantGeneration)]

/-- The claimant generations that the operation presents to the registry. -/
def presented : Request → List (ClaimantId × ClaimantGeneration)
  | .create _ _ terms .. | .amend _ _ _ _ terms _ | .acquireHold _ _ terms _ =>
    [(terms.claimant, terms.claimantGeneration)]
  | .registerClaimant _ claimant generation _ => [(claimant, generation)]
  | .release _ context .. => asserted context
  | _ => []

/-- The claimant generations that a request carries. -/
def carried (request : Request) : List (ClaimantId × ClaimantGeneration) :=
  (request.context.map asserted).getD [] ++ request.presented

/-- The terms a request commits, if it commits any. -/
def commits : Request → Option ReservationTerms
  | .create _ _ terms .. | .amend _ _ _ _ terms _ => some terms
  | _ => none

end Request

namespace Coordinator

/-- A later generation of the claimant is registered. -/
def outdated (c : Coordinator) (claim : ClaimantId × ClaimantGeneration) : Bool :=
  c.claimants[claim.1]?.any fun registered => claim.2 < registered

/-- A request that carries an outdated generation presents one. -/
def heeds (c : Coordinator) (request : Request) : Bool :=
  !request.carried.any c.outdated || request.presented.any c.outdated

/-- A record of `c`, stored or archived, in whatever state. -/
def Known (c : Coordinator) (r : ReservationRecord) : Prop :=
  ∃ r₀, ((∃ k : ReservationKey, c.records[k]? = some r₀) ∨
    ∃ id : ReservationId, c.retired[id]? = some r₀) ∧ Descends r₀ r

/-- The authority of a record names the generation registered for its claimant. -/
def Stamped (c : Coordinator) (r : ReservationRecord) : Prop :=
  r.authority.claimant = r.terms.claimant ∧
    c.claimants[r.terms.claimant]? = some r.authority.claimantGeneration

/-! ## The registry in a run -/

/-- Every claimant of a table is registered in `table'`, with no earlier generation. -/
def Grows (table table' : Map ClaimantId ClaimantGeneration) : Prop :=
  ∀ (claimant : ClaimantId) (generation : ClaimantGeneration), table[claimant]? = some generation →
    ∃ later, table'[claimant]? = some later ∧ generation ≤ later

theorem Grows.refl (table : Map ClaimantId ClaimantGeneration) : Grows table table :=
  fun _ generation there => ⟨generation, there, le_rfl⟩

theorem Grows.trans {a b c : Map ClaimantId ClaimantGeneration} (h : Grows a b) (h' : Grows b c) :
    Grows a c := by
  intro claimant generation there
  obtain ⟨g₁, there₁, le₁⟩ := h claimant generation there
  obtain ⟨g₂, there₂, le₂⟩ := h' claimant g₁ there₁
  exact ⟨g₂, there₂, le_trans le₁ le₂⟩

theorem grows_foldl : ∀ (registrations : List ClaimantMutation)
    (table : Map ClaimantId ClaimantGeneration), Grows table (registrations.foldl registered table)
  | [], table => .refl table
  | r :: rest, table => by
    have turn : Grows table (registered table r) := by
      intro claimant generation there
      exact registered_mono r there
    rw [List.foldl_cons]
    exact turn.trans (grows_foldl rest _)

/-- A registry grows along every run, through restarts as well. -/
theorem keeps_registry (table : Map ClaimantId ClaimantGeneration) :
    System.Keeps (fun _ _ => True)
      (fun c x => c.claimants = x.claimants ∧ Grows table x.claimants)
      (fun _ x => Grows table x.claimants) where
  move := by
    rintro s a c c' x m - - idle - ⟨same, grows⟩ takes
    have after := claimants_leaves idle takes same
    refine ⟨after, ?_⟩
    rw [← after, claimants_takes idle takes, same]
    exact grows.trans (grows_foldl _ _)
  recover := fun _ w _ grows h => ⟨claimants_recover w h, grows⟩
  close := fun _ h => h.2

/-- **Registered generations** never decrease. -/
theorem registers_after {as bs : List Action} {c c' : Coordinator} (h : System.run as = .up c)
    (h' : System.run (as ++ bs) = .up c') : Grows c.claimants c'.claimants := by
  have first := System.holds_always (keeps_registry ∅)
    (System.holds_initial (J := fun c x => c.claimants = x.claimants ∧ Grows ∅ x.claimants)
      (.refl _)) as
  rw [show after System.step System.initial as = .up c from h] at first
  obtain ⟨idle, x, written, sound, same, -⟩ := first
  have second := System.holds_always (keeps_registry c.claimants) (s := .up c)
    ⟨idle, x, written, sound, same, same ▸ .refl _⟩ bs
  rw [← h, ← System.run_append, h'] at second
  obtain ⟨-, y, -, -, same', grows⟩ := second
  rw [same']
  exact grows

/-! ## Outdated generations -/

section

variable {c : Coordinator}

/-- An outdated generation is refused, and nothing has happened. -/
theorem ensures_ensureClaimant_outdated {claimant : ClaimantId} {generation : ClaimantGeneration}
    (old : c.outdated (claimant, generation) = true) (now : Timestamp) :
    Op.Ensures (ensureClaimant claimant generation now) c fun r d => d = c ∧ ∃ e, r = .error e := by
  obtain ⟨known, there, lt⟩ := (Option.any_eq_true _ _).mp old
  unfold ensureClaimant
  refine Op.ensures_refuseIf_bind (fun _ => ?_) fun _ => ⟨rfl, _, rfl⟩
  apply Op.ensures_get_bind
  rw [there]
  dsimp only
  rw [if_pos (of_decide_eq_true lt)]
  exact ⟨rfl, _, rfl⟩

/-- An operation that leaves the state as it was, and then does so again. -/
theorem ensures_unchanged_bind {α β : Type} {m : Method α} {f : α → Method β}
    (first : Op.Ensures m c fun r d => d = c ∧
      ∀ a, r = .ok a → Op.Ensures (f a) c fun _ e => e = c) :
    Op.Ensures (m >>= f) c fun _ d => d = c := by
  apply Op.ensures_bind
  refine first.mono ?_
  rintro (e | a) d ⟨rfl, next⟩
  · rfl
  · exact next a rfl

theorem ensures_create_outdated {now : Timestamp} {context : RequestContext}
    {terms : ReservationTerms} {requestedId : ReservationId} {dryRun : Bool} {holds : List HoldId}
    (old : c.outdated (terms.claimant, terms.claimantGeneration) = true) :
    Op.Ensures (create now context terms requestedId dryRun holds) c fun _ d => d = c := by
  unfold create
  apply ensures_unchanged_bind
  unfold admitCreate
  apply Op.ensures_get_bind
  refine Op.ensures_lift_bind (fun _ _ => ?_) fun _ _ => ⟨rfl, fun _ no => nomatch no⟩
  refine Op.ensures_lift_bind (fun _ _ => ?_) fun _ _ => ⟨rfl, fun _ no => nomatch no⟩
  refine Op.ensures_refuseIf_bind (fun _ => ?_) fun _ => ⟨rfl, fun _ no => nomatch no⟩
  apply Op.ensures_bind
  refine (ensures_ensureClaimant_outdated old now).mono ?_
  rintro _ d ⟨rfl, e, rfl⟩
  exact ⟨rfl, fun _ no => nomatch no⟩

/-- An amendment answers a retried attempt before it looks at the generation. -/
theorem ensures_amend_outdated {now : Timestamp} {context : RequestContext}
    {target : ReservationId} {generation : ReservationGeneration} {terms : ReservationTerms}
    {dryRun : Bool} (old : c.outdated (terms.claimant, terms.claimantGeneration) = true) :
    Op.Ensures (amend now context target generation terms dryRun) c fun _ d => d = c := by
  unfold amend
  apply ensures_unchanged_bind
  unfold admitAmend
  apply Op.ensures_get_bind
  refine Op.ensures_lift_bind (fun _ _ => ?_) fun _ _ => ⟨rfl, fun _ no => nomatch no⟩
  refine Op.ensures_lift_bind (fun _ _ => ?_) fun _ _ => ⟨rfl, fun _ no => nomatch no⟩
  apply Op.ensures_get_bind
  cases c.findRecord target generation with
  | none => exact ⟨rfl, fun _ no => nomatch no⟩
  | some predecessor =>
    dsimp only
    cases c.attempts[context.attempt]? with
    | some previous =>
      refine Op.ensures_refuseIf_bind (fun _ => ⟨rfl, fun a same => ?_⟩) fun _ =>
        ⟨rfl, fun _ no => nomatch no⟩
      obtain rfl := Except.ok.inj same
      exact (rfl : c = c)
    | none =>
      refine Op.ensures_refuseIf_bind (fun _ => ?_) fun _ => ⟨rfl, fun _ no => nomatch no⟩
      refine Op.ensures_refuseIf_bind (fun _ => ?_) fun _ => ⟨rfl, fun _ no => nomatch no⟩
      refine Op.ensures_refuseIf_bind (fun _ => ?_) fun _ => ⟨rfl, fun _ no => nomatch no⟩
      apply Op.ensures_bind
      refine (ensures_ensureClaimant_outdated old now).mono ?_
      rintro _ d ⟨rfl, e, rfl⟩
      exact ⟨rfl, fun _ no => nomatch no⟩

theorem ensures_acquireHold_outdated {now : Timestamp} {context : RequestContext}
    {terms : ReservationTerms} {expiresAt : Timestamp}
    (old : c.outdated (terms.claimant, terms.claimantGeneration) = true) :
    Op.Ensures (acquireHold now context terms expiresAt) c fun _ d => d = c := by
  unfold acquireHold
  apply ensures_unchanged_bind
  unfold admitHold
  apply Op.ensures_get_bind
  refine Op.ensures_lift_bind (fun _ _ => ?_) fun _ _ => ⟨rfl, fun _ no => nomatch no⟩
  refine Op.ensures_lift_bind (fun _ _ => ?_) fun _ _ => ⟨rfl, fun _ no => nomatch no⟩
  apply Op.ensures_bind
  refine (ensures_ensureClaimant_outdated old now).mono ?_
  rintro _ d ⟨rfl, e, rfl⟩
  exact ⟨rfl, fun _ no => nomatch no⟩

theorem ensures_release_outdated {now : Timestamp} {context : RequestContext}
    {id : ReservationId} {generation : ReservationGeneration}
    (named : context.claimant.isNil = false)
    (old : c.outdated (context.claimant, context.claimantGeneration) = true) :
    Op.Ensures (release now context id generation) c fun _ d => d = c := by
  unfold release
  apply Op.ensures_get_bind
  refine Op.ensures_lift_bind (fun _ _ => ?_) fun _ _ => rfl
  apply ensures_unchanged_bind
  unfold namedRecord
  apply Op.ensures_get_bind
  cases c.findRecord id generation with
  | none => exact ⟨rfl, fun _ no => nomatch no⟩
  | some r =>
    refine ⟨rfl, fun _ _ => ?_⟩
    refine Op.ensures_refuseIf_bind (fun _ => ?_) fun _ => rfl
    rw [named]
    apply Op.ensures_bind
    refine (ensures_ensureClaimant_outdated old now).mono ?_
    rintro _ d ⟨rfl, e, rfl⟩
    rfl

/-- **A request that presents an outdated generation** leaves the state as it was. -/
theorem ensures_perform_outdated {request : Request} (old : request.presented.any c.outdated = true) :
    Op.Ensures request.perform c fun _ d => d = c := by
  obtain ⟨claim, mem, old⟩ := List.any_eq_true.mp old
  have discarded : ∀ {α : Type} {m : Method α}, (Op.Ensures m c fun _ d => d = c) →
      Op.Ensures (discard m) c fun _ d => d = c := fun h =>
    Op.ensures_discard (h.mono fun r _ same => by rcases r with _ | _ <;> exact same)
  cases request with
  | create now context terms requestedId dryRun holds =>
    obtain rfl := List.mem_singleton.mp mem
    exact discarded (ensures_create_outdated old)
  | amend now context target generation terms dryRun =>
    obtain rfl := List.mem_singleton.mp mem
    exact discarded (ensures_amend_outdated old)
  | acquireHold now context terms expiresAt =>
    obtain rfl := List.mem_singleton.mp mem
    exact discarded (ensures_acquireHold_outdated old)
  | registerClaimant now claimant generation context =>
    obtain rfl := List.mem_singleton.mp mem
    change Op.Ensures (registerClaimant now claimant generation context) c _
    unfold registerClaimant
    apply Op.ensures_get_bind
    refine Op.ensures_lift_bind (fun _ _ => ?_) fun _ _ => rfl
    refine Op.ensures_refuseIf_bind (fun _ => ?_) fun _ => rfl
    exact (ensures_ensureClaimant_outdated old now).mono fun _ _ h => h.1
  | release now context id generation =>
    have named : context.claimant.isNil = false := by
      by_contra nil
      simp [Request.presented, Request.asserted, nil] at mem
    have one : (Request.release now context id generation).presented =
        [(context.claimant, context.claimantGeneration)] := by
      simp [Request.presented, Request.asserted, named]
    rw [one] at mem
    obtain rfl := List.mem_singleton.mp mem
    exact discarded (ensures_release_outdated named old)
  | _ => exact absurd mem List.not_mem_nil

end

/-! ## What a commit is stamped with -/

/-- The authority of a record was made for terms. -/
structure MadeFor (terms : ReservationTerms) (r : ReservationRecord) : Prop where
  named : r.terms.claimant = terms.claimant
  claimant : r.authority.claimant = terms.claimant
  generation : r.authority.claimantGeneration = terms.claimantGeneration

theorem lasting_madeFor (terms : ReservationTerms) : Lasting (MadeFor terms) := by
  intro r r' descends h
  refine ⟨?_, ?_, ?_⟩
  · rw [descends.terms]
    exact h.named
  · rw [descends.authority]
    exact h.claimant
  · rw [descends.authority]
    exact h.generation

theorem lasting_known (c : Coordinator) : Lasting (Known c) := by
  rintro r r' descends ⟨r₀, there, before⟩
  exact ⟨r₀, there, before.trans descends⟩

theorem all_known (c : Coordinator) : All (Known c) c :=
  ⟨fun k r there => ⟨r, .inl ⟨k, there⟩, .refl r⟩, fun id r there => ⟨r, .inr ⟨id, there⟩, .refl r⟩⟩

theorem All.mono {Q R : ReservationRecord → Prop} {c : Coordinator} (imp : ∀ r, Q r → R r)
    (h : All Q c) : All R c :=
  ⟨fun k r there => imp r (h.stored k r there), fun id r there => imp r (h.archived id r there)⟩

section

variable {c d : Coordinator}

theorem madeFor_createRecords (c : Coordinator) (p : CreatePlan) :
    ∀ r ∈ c.createRecords p, MadeFor p.terms r := by
  intro r mem
  unfold createRecords at mem
  split at mem
  · obtain ⟨i, -, rfl⟩ := List.mem_mapIdx.mp mem
    exact ⟨rfl, rfl, rfl⟩
  · rw [List.mem_singleton.mp mem]
    exact ⟨rfl, rfl, rfl⟩

theorem madeFor_amend {p : AmendPlan} {superseded successors : List ReservationRecord}
    {mutation : ReservationMutation}
    (made : c.amendMutation p superseded = .ok (mutation, successors)) :
    ∀ r ∈ successors, MadeFor p.terms r := by
  intro r mem
  rcases (amendMutation_successors made).2 with ⟨-, rfl⟩ | ⟨-, rfl⟩
  · obtain ⟨i, -, rfl⟩ := List.mem_mapIdx.mp mem
    unfold amendedMember
    dsimp only
    split <;> exact ⟨rfl, rfl, rfl⟩
  · rw [List.mem_singleton.mp mem]
    exact ⟨rfl, rfl, rfl⟩

/-- The clock registers nobody. -/
theorem clocked_claimants (idle : Idle c) (h : Runs Clocked c d) : d.claimants = c.claimants := by
  refine ((h idle).2.invariant_idle idle (I := fun e => e.claimants = c.claimants) ?_ rfl).2
  rintro e e' m eIdle same own takes
  have tables := tables_takes eIdle takes
  cases m <;> first | exact absurd own id | exact tables.claimants.trans same

/-- The registry holds the generation that was presented. -/
theorem ensures_ensureClaimant_registered (idle : Idle c) (claimant : ClaimantId)
    (generation : ClaimantGeneration) (now : Timestamp) :
    Op.Ensures (ensureClaimant claimant generation now) c fun r d => r = .ok () →
      d.claimants[claimant]? = some generation := by
  unfold ensureClaimant
  refine Op.ensures_refuseIf_bind (fun named => ?_) fun _ no => nomatch no
  apply Op.ensures_get_bind
  have inserted : ∀ c₁ : Coordinator,
      (c₁.claimants.insert claimant generation)[claimant]? = some generation := fun c₁ => by
    rw [Map.get_insert, if_pos rfl]
  cases known : c.claimants[claimant]? with
  | none =>
    apply Op.ensures_bind
    apply Op.ensures_discard
    refine (ensures_appendRecord _ c).mono ?_
    rintro (e | sequence) c₁ -
    · exact fun no => nomatch no
    · exact Op.ensures_modify fun _ => inserted c₁
  | some last =>
    dsimp only
    refine Op.ensures_ite (fun _ no => nomatch no) fun old => ?_
    refine Op.ensures_ite (fun newer => ?_) fun same => ?_
    · apply Op.ensures_bind
      apply Op.ensures_discard
      refine (ensures_appendRecord _ c).mono ?_
      rintro (e | sequence) c₁ spec
      · exact fun no => nomatch no
      · apply Op.ensures_modify_bind
        have takes : (Move.claimant ⟨claimant, generation, now⟩).Takes c
            { c₁ with claimants := c₁.claimants.insert claimant generation } :=
          ⟨named, fun before found => by rw [known] at found; exact Option.some.inj found ▸ newer,
            c₁, spec.2, rfl⟩
        refine (within_fenceHolds (P := Clocked) (fun _ h => h) now _ _ _).mono fun _ d runs _ => ?_
        rw [clocked_claimants (idle_takes idle takes) runs]
        exact inserted c₁
    · exact fun _ => known.trans (congrArg some (le_antisymm (not_lt.mp old) (not_lt.mp same)))

/-- The checks of a commit that go on have registered the generation of its terms. -/
theorem ensures_registered_bind {α : Type} (idle : Idle c) (claimant : ClaimantId)
    (generation : ClaimantGeneration) (now : Timestamp) {f : Method α}
    {Q : Except Error α → Coordinator → Prop} (refused : ∀ e d, Q (.error e) d)
    (rest : ∀ d, d.claimants[claimant]? = some generation → Op.Ensures f d Q) :
    Op.Ensures (do
      ensureClaimant claimant generation now
      reconcile now
      f) c Q := by
  refine Op.ensures_bind_run fun r c₁ ran => ?_
  have ranks := (within_ensureClaimant (P := fun m => Clocked m ∨ ∃ x, m = .claimant x)
    (fun _ h => .inl h) claimant generation now (.inr ⟨_, rfl⟩) c).of_run ran
  have holds := (ensures_ensureClaimant_registered idle claimant generation now).of_run ran
  rcases r with e | ⟨⟩
  · exact refused e c₁
  refine Op.ensures_bind_run fun r d reconciled => ?_
  have clocked := (within_reconcile (P := Clocked) (fun _ h => h) now c₁).of_run reconciled
  rcases r with e | ⟨⟩
  · exact refused e d
  · refine rest d ?_
    rw [clocked_claimants (ranks idle).1 clocked]
    exact holds rfl

theorem ensures_admitCreate_registered (idle : Idle c) (now : Timestamp) (context : RequestContext)
    (terms : ReservationTerms) (requestedId : ReservationId) (dryRun : Bool) (holds : List HoldId) :
    Op.Ensures (admitCreate now context terms requestedId dryRun holds) c fun r d =>
      ∀ p, r = .ok (.inr p) → d.claimants[terms.claimant]? = some terms.claimantGeneration := by
  unfold admitCreate
  apply Op.ensures_get_bind
  refine Op.ensures_lift_bind (fun _ _ => ?_) fun _ _ _ no => nomatch no
  refine Op.ensures_lift_bind (fun _ _ => ?_) fun _ _ _ no => nomatch no
  refine Op.ensures_refuseIf_bind (fun _ => ?_) fun _ _ no => nomatch no
  refine ensures_registered_bind idle _ _ now (fun _ _ _ no => nomatch no) fun d there => ?_
  apply Op.ensures_get_bind
  rcases d.policyFor terms.policy with ⟨policy, note⟩
  dsimp only
  refine Op.ensures_lift_bind (fun _ _ => ?_) fun _ _ _ no => nomatch no
  cases d.attempts[context.attempt]? with
  | some previous =>
    refine Op.ensures_refuseIf_bind (fun _ => ?_) fun _ _ no => nomatch no
    exact fun _ no => nomatch no
  | none =>
    dsimp only
    refine Op.ensures_refuseIf_bind (fun _ => ?_) fun _ _ no => nomatch no
    refine Op.ensures_refuseIf_bind (fun _ => ?_) fun _ _ no => nomatch no
    refine Op.ensures_refuseIf_bind (fun _ => ?_) fun _ _ no => nomatch no
    refine Op.ensures_lift_bind (fun _ _ => ?_) fun _ _ _ no => nomatch no
    refine Op.ensures_lift_bind (fun _ _ => ?_) fun _ _ _ no => nomatch no
    exact fun _ _ => there

theorem ensures_admitAmend_registered (idle : Idle c) (now : Timestamp) (context : RequestContext)
    (target : ReservationId) (generation : ReservationGeneration) (terms : ReservationTerms) :
    Op.Ensures (admitAmend now context target generation terms) c fun r d =>
      ∀ p, r = .ok (.inr p) → d.claimants[terms.claimant]? = some terms.claimantGeneration := by
  unfold admitAmend
  apply Op.ensures_get_bind
  refine Op.ensures_lift_bind (fun _ _ => ?_) fun _ _ _ no => nomatch no
  refine Op.ensures_lift_bind (fun _ _ => ?_) fun _ _ _ no => nomatch no
  apply Op.ensures_get_bind
  cases c.findRecord target generation with
  | none => exact fun _ no => nomatch no
  | some predecessor =>
    dsimp only
    cases c.attempts[context.attempt]? with
    | some previous =>
      refine Op.ensures_refuseIf_bind (fun _ => ?_) fun _ _ no => nomatch no
      exact fun _ no => nomatch no
    | none =>
      refine Op.ensures_refuseIf_bind (fun _ => ?_) fun _ _ no => nomatch no
      refine Op.ensures_refuseIf_bind (fun _ => ?_) fun _ _ no => nomatch no
      refine Op.ensures_refuseIf_bind (fun _ => ?_) fun _ _ no => nomatch no
      refine ensures_registered_bind idle _ _ now (fun _ _ _ no => nomatch no) fun d there => ?_
      apply Op.ensures_get_bind
      rcases d.policyFor terms.policy with ⟨policy, note⟩
      dsimp only
      refine Op.ensures_lift_bind (fun _ _ => ?_) fun _ _ _ no => nomatch no
      refine Op.ensures_lift_bind (fun _ _ => ?_) fun _ _ _ no => nomatch no
      exact fun _ _ => there

/-- Nothing has been committed since `c`, or what was is stamped. -/
def Stamps (c : Coordinator) (terms : ReservationTerms) (d : Coordinator) : Prop :=
  All (Known c) d ∨ d.claimants[terms.claimant]? = some terms.claimantGeneration ∧
    All (fun r => Known c r ∨ MadeFor terms r) d

theorem Stamps.all {terms : ReservationTerms} (h : Stamps c terms d) :
    All (fun r => Known c r ∨ Stamped d r) d := by
  rcases h with known | ⟨there, all⟩
  · exact known.mono fun _ => .inl
  · refine all.mono fun r own => own.imp_right fun made => ⟨?_, ?_⟩
    · rw [made.claimant, made.named]
    · rw [made.named, made.generation]
      exact there

/-- What keeps a commit stamped. -/
theorem Stamps.takes {terms : ReservationTerms} {e : Coordinator} {m : Move} (h : Stamps c terms d)
    (idle : Idle d) (takes : m.Takes d e)
    (registers : ∀ registration, m = .claimant registration →
      registration.claimant = terms.claimant ∧
        registration.generation = terms.claimantGeneration)
    (commits : ∀ r, .record r ∈ m.recollections d → MadeFor terms r ∧
      d.claimants[terms.claimant]? = some terms.claimantGeneration) : Stamps c terms e := by
  have lasting : Lasting fun r => Known c r ∨ MadeFor terms r := fun descends own =>
    own.imp (lasting_known c descends) (lasting_madeFor terms descends)
  by_cases some : ∃ r, .record r ∈ m.recollections d
  · obtain ⟨r, mem⟩ := some
    have there := (commits r mem).2
    have kept : e.claimants = d.claimants := by
      have tables := tables_takes idle takes
      cases m <;> first | exact absurd mem List.not_mem_nil | exact tables.claimants
    refine .inr ⟨kept ▸ there, all_takes lasting idle takes ?_ fun r own => .inr (commits r own).1⟩
    exact h.elim (fun known => known.mono fun _ => .inl) And.right
  · have none : ∀ (Q : ReservationRecord → Prop) r, .record r ∈ m.recollections d → Q r :=
      fun _ r mem => absurd ⟨r, mem⟩ some
    refine h.imp (fun known => all_takes (lasting_known c) idle takes known (none _)) ?_
    rintro ⟨there, all⟩
    refine ⟨?_, all_takes lasting idle takes all (none _)⟩
    cases m with
    | claimant registration =>
      obtain ⟨named, same⟩ := registers registration rfl
      obtain ⟨-, newer, -⟩ := takes
      rw [named] at newer
      exact absurd (newer _ there) (by rw [same]; exact lt_irrefl _)
    | _ => exact (congrArg (fun t : Map ClaimantId ClaimantGeneration => t[terms.claimant]?)
        (tables_takes idle takes).claimants).trans there

/-- A move of a create or an amendment that registers a record is its commit. -/
theorem commits_stamped {request : Request} {terms : ReservationTerms}
    (commits : request.commits = some terms) (idle : Idle c) (dIdle : Idle d) {m : Move}
    {e : Coordinator} (own : MakesFrom request c d m) (takes : m.Takes d e) :
    ∀ r, .record r ∈ m.recollections d → MadeFor terms r ∧
      d.claimants[terms.claimant]? = some terms.claimantGeneration := by
  obtain ⟨makes, there⟩ := own
  intro r mem
  rcases record_recollections mem with ⟨p, victims, rfl, registered⟩ |
    ⟨p, superseded, successors, mutation, rfl, registered⟩ | ⟨r', binding, now, context, rfl, rfl⟩
  · have carries := makes.resolve_left id
    cases request with
    | create now context terms' requestedId dryRun holds =>
      obtain rfl : terms' = terms := Option.some.inj commits
      obtain ⟨-, -, -, -, same, -⟩ := carries
      rw [createMutation_records d victims (expandSeries_length takes.1.intervals).2] at registered
      exact ⟨same ▸ madeFor_createRecords d p _ registered, (ensures_admitCreate_registered idle now
        context terms' requestedId dryRun holds).of_run there p rfl⟩
    | _ => exact absurd carries id
  · have carries := makes.resolve_left id
    cases request with
    | amend now context target generation terms' dryRun =>
      obtain rfl : terms' = terms := Option.some.inj commits
      obtain ⟨-, -, -, -, -, same, -⟩ := carries
      exact ⟨same ▸ madeFor_amend (takes_amend dIdle takes).1 _ registered,
        (ensures_admitAmend_registered idle now context target generation terms').of_run there p rfl⟩
    | _ => exact absurd carries id
  · cases request with
    | create now' context' terms' requestedId dryRun holds => exact absurd trivial there
    | amend now' context' target generation terms' dryRun => exact absurd trivial there
    | _ => exact nomatch commits

/-- **A create or an amendment** that commits stamps what it commits. -/
theorem ensures_perform_stamps {request : Request} {terms : ReservationTerms}
    (commits : request.commits = some terms) (idle : Idle c) :
    Op.Ensures request.perform c fun _ c' => Stamps c terms c' := by
  refine (ensures_perform request c).mono fun _ c' runs => ?_
  refine ((runs idle).2.invariant_idle idle (I := Stamps c terms) ?_ (.inl (all_known c))).2
  intro d e m dIdle stamps own takes
  refine stamps.takes dIdle takes (fun registration same => ?_)
    (commits_stamped commits idle dIdle own takes)
  subst same
  have carries := own.1.resolve_left id
  cases request with
  | create now context terms' requestedId dryRun holds =>
    obtain rfl : terms' = terms := Option.some.inj commits
    rw [show registration = ⟨terms'.claimant, terms'.claimantGeneration, now⟩ from carries]
    exact ⟨rfl, rfl⟩
  | amend now context target generation terms' dryRun =>
    obtain rfl : terms' = terms := Option.some.inj commits
    rw [show registration = ⟨terms'.claimant, terms'.claimantGeneration, now⟩ from carries]
    exact ⟨rfl, rfl⟩
  | _ => exact nomatch commits

end

end Coordinator

/-- **Claimant generations**, in every run: registered generations never decrease; a request that
carries an outdated generation changes nothing, if it presents one; and whatever create and amend
commit names the generation that is registered. -/
theorem claimant_generations {as : List Action} {c : Coordinator} (h : System.run as = .up c) :
    (∀ (bs : List Action) (c' : Coordinator), System.run (as ++ bs) = .up c' →
      Coordinator.Grows c.claimants c'.claimants) ∧
    (∀ (request : Request) (faults : List Bool), c.heeds request = true →
      request.carried.any c.outdated = true →
        (System.serve c request faults).2 = c.withFaults faults) ∧
    ∀ (request : Request) (faults : List Bool), request.commits.isSome = true →
      Coordinator.All
        (fun r => Coordinator.Known c r ∨ Coordinator.Stamped (System.serve c request faults).2 r)
        (System.serve c request faults).2 := by
  refine ⟨fun bs c' h' => Coordinator.registers_after h h', fun request faults heeds old => ?_,
    fun request faults commits => ?_⟩
  · have presents : request.presented.any c.outdated = true := by
      unfold Coordinator.heeds at heeds
      rw [old] at heeds
      exact heeds
    exact (Coordinator.ensures_perform_outdated (c := c.withFaults faults) presents).of_run rfl
  · obtain ⟨terms, commits⟩ := Option.isSome_iff_exists.mp commits
    have idle := Coordinator.idle_takes (m := .quiet) (System.reachable_idle h).1
      ⟨faults, c.stats, rfl⟩
    exact ((Coordinator.ensures_perform_stamps commits idle).of_run
      (r := (System.serve c request faults).1) rfl).all

namespace System.Sample

/-- The claimant is registered with a generation. -/
def registeredClaimant (generation : ClaimantGeneration) : Action :=
  { event := .request (.registerClaimant 3 5 generation (context 1 0)) }

/-- A context of the claimant, which asserts a generation. -/
def asserting (attempt : AttemptId) (generation : ClaimantGeneration) : RequestContext :=
  { context 1 attempt with claimant := 5, claimantGeneration := generation }

/-- A reservation for a generation of the claimant, in a context that asserts another one. -/
def createdFor (attempt : AttemptId) (asserted generation : ClaimantGeneration) : Request :=
  .create 4 (asserting attempt asserted) { terms 10 with claimantGeneration := generation } 21 false []

end System.Sample

open System.Sample in
/-- The first generation is refused when the second is registered, and the second is stamped. -/
theorem claimant_generations_second :
    let as := [opened 0, ingested, registeredClaimant 2]
    let c := (System.run as).coordinator
    Coordinator.Grows c.claimants (System.run (as ++ [registeredClaimant 3])).coordinator.claimants ∧
      (System.serve c (createdFor 30 1 1) []).2 = c.withFaults [] ∧
      Coordinator.All (fun r => Coordinator.Known c r ∨
        Coordinator.Stamped (System.serve c (createdFor 31 2 2) []).2 r)
        (System.serve c (createdFor 31 2 2) []).2 := by
  intro as c
  have up : System.run as = .up c := System.eq_up (by decide +kernel)
  have results := claimant_generations up
  exact ⟨results.1 [registeredClaimant 3] _ (System.eq_up (by decide +kernel)),
    results.2.1 (createdFor 30 1 1) [] (by decide +kernel) (by decide +kernel),
    results.2.2 (createdFor 31 2 2) [] rfl⟩

open System.Sample in
/-- A create whose context asserts the first generation commits, though the second is registered:
only its terms are looked at. -/
theorem asserted_generation_ignored :
    ¬ ∀ (as : List Action) (c : Coordinator) (request : Request) (faults : List Bool),
      System.run as = .up c → request.carried.any c.outdated = true →
        Coordinator.All (Coordinator.Known c) (System.serve c request faults).2 := by
  intro claimed
  let c := (System.run [opened 0, ingested, registeredClaimant 2]).coordinator
  have all := claimed [opened 0, ingested, registeredClaimant 2] c (createdFor 30 1 2) []
    (System.eq_up (by decide +kernel)) (by decide +kernel)
  have committed : ((System.serve c (createdFor 30 1 2) []).2.records[(⟨21, 1⟩ : ReservationKey)]?
      ).isSome = true := by
    decide +kernel
  have nothing : c.records.values.isEmpty = true ∧ c.retired.values.isEmpty = true := by
    decide +kernel
  obtain ⟨r, stored⟩ := Option.isSome_iff_exists.mp committed
  obtain ⟨r₀, ⟨k, there⟩ | ⟨id, there⟩, -⟩ := all.stored _ r stored
  · exact List.ne_nil_of_mem (Map.mem_values.mpr ⟨k, there⟩) (List.isEmpty_iff.mp nothing.1)
  · exact List.ne_nil_of_mem (Map.mem_values.mpr ⟨id, there⟩) (List.isEmpty_iff.mp nothing.2)

end Brf
