import Brf.Requests
import Mathlib.Data.List.Destutter

/-!
# Create and amend as sequences of moves

Both evaluate inside a suspension and end in a commit, in a durable refusal, or in nothing.

* `Planned c p victims e`: the evaluation of `p` has taken the holds it consumes and the entries of
  the victims out of the index, and nothing else.
* A commit is the move `create` or `amend` from the state in which the evaluation started.

* `Request.From request c d m`: the state `d` in which a request that found `c` makes a move of its own.

Results: `ends_createCommit`, `ends_amendCommit`, `ensures_perform` and `ensures_bootUp`.
-/

namespace Brf

open Brf.Lib

/-- The moves that judge committed records anew. -/
def Coordinator.Move.Judges : Coordinator.Move → Prop
  | .mark .. | .revalidate .. | .overcommit _ => True
  | _ => False

/-- `reconcile_lifecycle` up to the refresh. -/
def Coordinator.openReconcile (now : Timestamp) (context : RequestContext) :
    Coordinator.Method Unit := do
  Op.lift ((← get).validateContext context false)
  Coordinator.reconcile now

/-- The reviews of a request that found `c`: the turns of its refresh, the decision of a revalidation,
and the marks of a material change of policy. -/
def Request.Reviews (request : Request) (c : Coordinator) (m : Coordinator.Move) : Prop :=
  match request with
  | .ingestCapacity now stated withdrawals context => ∃ declared e,
      (Coordinator.declareCapacity now stated withdrawals context).exec c = (.ok (some declared), e) ∧
        Coordinator.RefreshMakes now true e m
  | .ingestPaths now stated context => ∃ changed e,
      (Coordinator.declarePaths now stated context).exec c = (.ok (some changed), e) ∧
        Coordinator.RefreshMakes now true e m
  | .ingestPolicy now _ _ => ∃ r, m = .mark r .revalidationRequired .policyMaterialChange now
  | .revalidate now context id generation markStale => ∃ s e,
      (Coordinator.openNamed now context id generation
        "the reservation generation to revalidate does not exist").exec c = (.ok s, e) ∧
        Coordinator.RevalidationMakes markStale e s m
  | .reconcileLifecycle now context => ∃ e,
      (Coordinator.openReconcile now context).exec c = (.ok (), e) ∧
        Coordinator.RefreshMakes now true e m
  | _ => False

/-- The state in which a request that found `c` makes a move of its own: it commits in the state its
checks have led to, it changes the path table as it has found it, and it recalls and reviews the
records it has come to. -/
def Request.From (request : Request) (c d : Coordinator) (m : Coordinator.Move) : Prop :=
  match request, m with
  | .create now context terms requestedId dryRun holds, .create p _ =>
    (Coordinator.admitCreate now context terms requestedId dryRun holds).exec c = (.ok (.inr p), d)
  | .amend now context target generation terms _, .amend p _ _ _ =>
    (Coordinator.admitAmend now context target generation terms).exec c = (.ok (.inr p), d)
  | .ingestPaths _ _ context, .paths .. => c.validateContext context false = .ok () ∧ d = c
  | .ingestPaths now stated context, .pathTable table =>
    d = c ∧ c.validateContext context false = .ok () ∧ c.checkPathSnapshot stated = .ok () ∧
      table = ((Coordinator.applyPaths stated.id now stated.paths).exec c).2.paths
  | .create .., m => ¬ m.Judges
  | .amend .., m => ¬ m.Judges
  | .«recall» now context id generation effectiveAt grace force, .pendRecall r _ _ _ effect g => ∃ e,
    (Coordinator.openNamed now context id generation
      "the reservation generation to recall does not exist").exec c = (.ok r, e) ∧
    Coordinator.recallEffect r now effectiveAt force = .ok effect ∧
    g = Coordinator.recallGrace (e.policyFor r.authority.policy).1 grace
  | request, m => m.Reviews → request.Reviews c m

namespace Coordinator

/-- The moves a request may make in a state. -/
def MakesFrom (request : Request) (c d : Coordinator) (m : Move) : Prop :=
  request.Makes m ∧ request.From c d m

section

variable {request : Request} {c d : Coordinator} {m : Move}

theorem Settling.makesFrom (h : Settling m) : MakesFrom request c d m := by
  refine ⟨h.housekeeping.makes request, ?_⟩
  cases m <;> first
    | exact absurd h id
    | (cases request <;> first | exact id | exact fun no => no.elim)

theorem incidental_makesFrom (h : request.Incidental m) : MakesFrom request c d m := by
  refine ⟨incidental_makes h, ?_⟩
  cases m <;> first
    | exact absurd h id
    | (cases request <;> first | exact id | exact fun no => no.elim)

theorem refusal_makesFrom {attempt : AttemptMutation} (h : request.Carries (.refusal attempt)) :
    MakesFrom request c d (.refusal attempt) := by
  refine ⟨.inr h, ?_⟩
  cases request <;> first | exact id | exact fun no => no.elim

end

/-! ## Suspensions that may fail -/

/-- Moves that satisfy `P` if the operation succeeds, and `Q` if it fails. `P` also looks at the
state a move is made in. -/
def EndsAt (P : Coordinator → Move → Prop) (Q : Move → Prop) {α : Type} (m : Method α)
    (c : Coordinator) : Prop :=
  Op.Ensures m c fun r c' => match r with
    | .ok _ => RunsAt P c c'
    | .error _ => Runs Q c c'

namespace EndsAt

variable {α β : Type} {P : Coordinator → Move → Prop} {Q : Move → Prop} {c : Coordinator}
  {m : Method α}

theorem runs (imp : ∀ d m, Q m → P d m) (h : EndsAt P Q m c) :
    Op.Ensures m c fun _ c' => RunsAt P c c' := by
  refine Op.Ensures.mono h ?_
  rintro (_ | _) c' ends
  · exact ends.anywhere imp
  · exact ends

theorem ends {R : Move → Prop} (imp : ∀ d m, P d m → R m) (h : EndsAt P Q m c) : Ends R Q m c := by
  refine Op.Ensures.mono h ?_
  rintro (_ | _) c' ends
  · exact ends
  · exact ends.mono imp

/-- What has been done before the second part is incidental. -/
theorem bind (imp : ∀ d m, Q m → P d m) {f : α → Method β}
    (first : Op.Ensures m c fun r d => Runs Q c d ∧ ∀ a, r = .ok a → EndsAt P Q (f a) d) :
    EndsAt P Q (m >>= f) c := by
  apply Op.ensures_bind
  refine first.mono ?_
  rintro (e | a) d ⟨before, rest⟩
  · exact before
  · refine Op.Ensures.mono (rest a rfl) ?_
    rintro (_ | _) c' after
    · exact before.trans after
    · exact (before.anywhere imp).trans after

theorem pure (a : α) : EndsAt P Q (Pure.pure a : Method α) c := RunsAt.refl c

/-- Whatever is claimed may assume that the state is idle. -/
theorem intro (h : Idle c → EndsAt P Q m c) : EndsAt P Q m c := by
  by_cases idle : Idle c
  · exact h idle
  · unfold EndsAt Op.Ensures
    dsimp only
    split
    · exact fun not => absurd not idle
    · exact fun not => absurd not idle

end EndsAt

/-- Moves that satisfy `P` if the body succeeds, and `Q` if it fails, with what is suspended. -/
def EndsEvaluated (P : Coordinator → Move → Prop) (Q : Move → Prop) {α : Type} (c : Coordinator)
    (m : Method α) (e : Coordinator) : Prop :=
  Op.Ensures m e fun r e' => match r with
    | .ok _ => EvaluatedAt P c e'
    | .error _ => Evaluated Q c e'

/-- What is still suspended is put back, and nothing else happens. -/
theorem EvaluatedAt.ensures_restore {P : Coordinator → Move → Prop}
    (reindexed : ∀ d, P d .reindexed) {c e : Coordinator} (h : EvaluatedAt P c e) :
    Op.Ensures restore e fun r c' => r = .ok () ∧ RunsAt P c c' := by
  obtain ⟨d, dIdle, moves, evaluation⟩ := h
  refine (Coordinator.ensures_restore evaluation.wf evaluation.able).mono ?_
  rintro _ c' ⟨rfl, y, rfl, wf, has⟩
  obtain ⟨⟨index, suspended, rfl⟩, -, -, whole⟩ := evaluation
  have before : RunsAt P c d := fun _ => ⟨dIdle, moves⟩
  refine ⟨rfl, before.trans (.one (reindexed d) ⟨y, ?_, wf, fun f => (has f).trans (whole f).symm⟩)⟩
  unfold withIndex
  rw [← dIdle.suspended]

/-- **Suspension rule** for an operation that may fail. -/
theorem ends_withSuspension {α : Type} {P : Coordinator → Move → Prop} {Q : Move → Prop}
    (hP : ∀ d, P d .reindexed) (hQ : Q .reindexed) {body : Method α} {c : Coordinator}
    (h : Idle c → EndsEvaluated P Q c body c) : EndsAt P Q (withSuspension body) c := by
  refine .intro fun idle => ?_
  rcases run : body.exec c with ⟨r, e⟩
  have ends := Op.Ensures.of_run (h idle) run
  unfold EndsAt Op.Ensures
  rw [exec_withSuspension, run]
  cases r with
  | ok a =>
    have put := EvaluatedAt.ensures_restore hP ends
    rcases back : restore.exec e with ⟨r, c'⟩
    obtain ⟨rfl, runs⟩ := put.of_run back
    exact runs
  | error err =>
    have put := EvaluatedAt.ensures_restore (P := fun _ m => Q m) (fun _ => hQ) ends
    rcases back : restore.exec e with ⟨r, c'⟩
    obtain ⟨rfl, runs⟩ := put.of_run back
    exact runs

/-! ## The evaluation of a create -/

/-- A stored consuming generation, as a victim must be. -/
def Displaceable (c : Coordinator) (v : IndexEntry) : Prop :=
  ∃ r, c.findRecord v.id v.holderGeneration = some r ∧ r.consumes = true

/-- What an evaluation of a create has taken out of the index. -/
structure Planned (c : Coordinator) (holds : List HoldId) (victims : List IndexEntry)
    (e : Coordinator) : Prop where
  evaluation : Evaluation c e
  displaceable : ∀ v ∈ victims, Displaceable c v
  taken : ∀ s ∈ e.suspended, (s.kind = .hold ∧ s.id ∈ holds) ∨
    s.kind = .reservation ∧ ∃ v ∈ victims, v.id = s.id ∧ v.holderGeneration = s.holderGeneration

theorem Evaluation.records {c e : Coordinator} (h : Evaluation c e) : e.records = c.records := by
  obtain ⟨⟨index, suspended, rfl⟩, -, -, -⟩ := h
  rfl

theorem Evaluation.holds {c e : Coordinator} (h : Evaluation c e) : e.holds = c.holds := by
  obtain ⟨⟨index, suspended, rfl⟩, -, -, -⟩ := h
  rfl

theorem ensures_suspendConsumed {c e : Coordinator} {holds : List HoldId}
    (h : Planned c holds [] e) (context : RequestContext) {id : HoldId} (named : id ∈ holds) :
    Op.Ensures (suspendConsumed context id) e fun r e' => Planned c holds [] e' ∧
      (r = .ok () → ∃ hold, c.holds[id]? = some hold ∧ hold.released = false) := by
  unfold suspendConsumed
  apply Op.ensures_get_bind
  rw [h.evaluation.holds]
  cases found : c.holds[id]?.filter fun hold => !hold.released with
  | none => exact ⟨h, fun no => nomatch (no : Except.error _ = Except.ok ())⟩
  | some hold =>
    obtain ⟨there, live⟩ := Option.filter_eq_some_iff.mp found
    refine Op.ensures_refuseIf_bind (fun _ => ?_) fun _ => ⟨h, fun no => absurd no (by simp)⟩
    refine (h.evaluation.ensures_suspendHold id).mono ?_
    rintro _ e' ⟨rfl, evaluation, out⟩
    refine ⟨⟨evaluation, h.displaceable, fun s hs => ?_⟩, fun _ => ⟨hold, there, by simpa using live⟩⟩
    rcases out s hs with before | ⟨kind, rfl⟩
    · exact h.taken s before
    · exact .inl ⟨kind, named⟩

theorem ensures_suspendAllConsumed {c : Coordinator} {holds : List HoldId}
    (context : RequestContext) : ∀ {ids : List HoldId} {e : Coordinator}, ids ⊆ holds →
      Planned c holds [] e → Op.Ensures (Op.each (suspendConsumed context) ids) e fun r e' =>
        Planned c holds [] e' ∧
          (r = .ok () → ∀ id ∈ ids, ∃ hold, c.holds[id]? = some hold ∧ hold.released = false)
  | [], e, _, h => ⟨h, fun _ _ no => absurd no List.not_mem_nil⟩
  | id :: ids, e, sub, h => by
    obtain ⟨named, sub⟩ := List.cons_subset.mp sub
    apply Op.ensures_bind
    refine (ensures_suspendConsumed h context named).mono ?_
    rintro (err | ⟨⟩) e₁ ⟨h₁, live⟩
    · exact ⟨h₁, fun no => absurd no (by simp)⟩
    · refine (ensures_suspendAllConsumed context sub h₁).mono ?_
      rintro r e' ⟨h', rest⟩
      exact ⟨h', fun ok => List.forall_mem_cons.mpr ⟨live rfl, rest ok⟩⟩

/-- The outcome of a preemption plan: if the windows close, they do so in the state it leaves. -/
def PlannedOutcome (p : CreatePlan) (c : Coordinator)
    (r : Except Error (List IndexEntry × Option (List Assessment))) (e : Coordinator) : Prop :=
  match r with
  | .ok (victims, found) => Planned c p.holds victims e ∧
      ∀ evaluations, found = some evaluations →
        e.evaluate p.terms p.binding p.policy p.intervals = .ok evaluations
  | .error _ => False

theorem ensures_planVictims {p : CreatePlan} {c : Coordinator} :
    ∀ {candidates : List IndexEntry} {victims : List IndexEntry} {e : Coordinator},
      Consistent c → (∀ v ∈ candidates, Displaceable c v) → Planned c p.holds victims e →
        Op.Ensures (planVictims p candidates victims) e (PlannedOutcome p c)
  | [], victims, e, _, _, h => ⟨h, fun _ no => absurd no (by simp)⟩
  | candidate :: rest, victims, e, hc, good, h => by
    obtain ⟨there, good⟩ := List.forall_mem_cons.mp good
    unfold planVictims
    refine Op.ensures_ite (fun _ => ⟨h, fun _ no => absurd no (by simp)⟩) fun _ => ?_
    apply Op.ensures_get_bind
    obtain ⟨victim, found, consumes⟩ := there
    have records := h.evaluation.records
    unfold findRecord at found ⊢
    rw [records, found]
    dsimp only
    have named := hc.keyed _ victim found
    apply Op.ensures_bind
    apply Op.ensures_attempt
    refine (h.evaluation.ensures_suspend victim).mono ?_
    rintro _ e₁ ⟨rfl, evaluation, out⟩
    dsimp only
    have h₁ : Planned c p.holds (victims ++ [candidate]) e₁ := by
      refine ⟨evaluation, fun v mem => ?_, fun s hs => ?_⟩
      · rcases List.mem_append.mp mem with mem | mem
        · exact h.displaceable v mem
        · obtain rfl := List.mem_singleton.mp mem
          exact ⟨victim, found, consumes⟩
      · rcases out s hs with before | ⟨kind, id, generation⟩
        · rcases h.taken s before with hold | ⟨kind, v, mem, same⟩
          · exact .inl hold
          · exact .inr ⟨kind, v, List.mem_append_left _ mem, same⟩
        · refine .inr ⟨kind, candidate, List.mem_append_right _ (List.mem_singleton.mpr rfl), ?_⟩
          rw [id, generation]
          exact ⟨(congrArg ReservationKey.id named).symm,
            (congrArg ReservationKey.generation named).symm⟩
    apply Op.ensures_get_bind
    cases closes : e₁.evaluate p.terms p.binding p.policy p.intervals with
    | ok evaluations =>
      refine ⟨h₁, fun found same => ?_⟩
      obtain rfl := Option.some.inj same
      exact closes
    | error short => exact ensures_planVictims hc good h₁

/-- The candidates for displacement are in the index, so the store backs them. -/
theorem mem_preemptionCandidates {c e : Coordinator} (h : Consistent c)
    (evaluation : Evaluation c e) {resource : ResourceName} {window : Interval}
    {requester : GuaranteeClass} {policy : PolicyRecord} {self : ReservationId} {v : IndexEntry}
    (mem : v ∈ e.preemptionCandidates resource window requester policy self) :
    Displaceable c v := by
  unfold preemptionCandidates at mem
  have sorted := (List.destutter_sublist (R := _) _).subset mem
  have eligible := (List.perm_insertionSort _ _).mem_iff.mp sorted
  obtain ⟨listed, chosen⟩ := List.mem_filter.mp eligible
  have kind : v.kind = .reservation := by
    have all := (Bool.and_eq_true _ _ ▸ chosen).1
    have all := (Bool.and_eq_true _ _ ▸ all).1
    have all := (Bool.and_eq_true _ _ ▸ all).1
    exact of_decide_eq_true (Bool.and_eq_true _ _ ▸ all).1
  have has := (CapacityIndex.mem_overlapping evaluation.wf listed).1
  exact h.backed v ((evaluation.has v).mpr (.inl has)) kind

theorem ensures_planPreemption {p : CreatePlan} {c : Coordinator} (hc : Consistent c)
    (window : Interval) : ∀ {refs : List ResourceRef} {victims : List IndexEntry}
      {e : Coordinator}, Planned c p.holds victims e →
        Op.Ensures (planPreemption p window refs victims) e (PlannedOutcome p c)
  | [], victims, e, h => ⟨h, fun _ no => absurd no (by simp)⟩
  | ref :: rest, victims, e, h => by
    unfold planPreemption
    refine Op.ensures_ite (fun _ => ⟨h, fun _ no => absurd no (by simp)⟩) fun _ => ?_
    apply Op.ensures_get_bind
    apply Op.ensures_bind
    refine (ensures_planVictims hc (fun v mem => mem_preemptionCandidates hc h.evaluation mem)
      h).mono ?_
    rintro (err | ⟨victims₁, found⟩) e₁ outcome
    · exact absurd outcome id
    · cases found with
      | some evaluations => exact outcome
      | none => exact ensures_planPreemption hc window outcome.1

/-- The evaluation of a create: what it has taken, and what closes in the state it leaves. -/
theorem ensures_evaluateCreate {p : CreatePlan} {c : Coordinator} (idle : Idle c) :
    Op.Ensures (evaluateCreate p) c fun r e => match r with
      | .ok (.ok (evaluations, victims)) => Planned c p.holds victims e ∧
          (∀ id ∈ p.holds, ∃ hold, c.holds[id]? = some hold ∧ hold.released = false) ∧
          e.evaluate p.terms p.binding p.policy p.intervals = .ok evaluations
      | _ => Evaluation c e := by
  unfold evaluateCreate
  have start : Planned c p.holds [] c :=
    ⟨.start idle, fun _ no => absurd no List.not_mem_nil, fun s hs => by
      rw [idle.suspended] at hs
      exact absurd hs List.not_mem_nil⟩
  apply Op.ensures_bind
  refine (ensures_suspendAllConsumed p.context (List.Subset.refl _) start).mono ?_
  rintro (err | ⟨⟩) e ⟨h, live⟩
  · exact h.evaluation
  have live := live rfl
  apply Op.ensures_get_bind
  cases closes : e.evaluate p.terms p.binding p.policy p.intervals with
  | ok evaluations => exact ⟨h, live, closes⟩
  | error short =>
    dsimp only
    refine Op.ensures_ite (fun _ => ?_) fun _ => h.evaluation
    apply Op.ensures_bind
    refine (ensures_planPreemption idle.consistent short.1 h).mono ?_
    rintro (err | ⟨victims, found⟩) e₁ outcome
    · exact absurd outcome id
    · cases found with
      | none => exact outcome.1.evaluation
      | some evaluations => exact ⟨outcome.1, live, outcome.2 evaluations rfl⟩

/-! ## Create -/

/-- The plan is one of the request's. -/
structure CreatePlan.For (p : CreatePlan) (now : Timestamp) (context : RequestContext)
    (terms : ReservationTerms) (requestedId : ReservationId) (holds : List HoldId) : Prop where
  now_eq : p.now = now
  context_eq : p.context = context
  terms_eq : p.terms = terms
  holds_eq : p.holds = holds
  id_eq : p.id = Request.createdId context terms requestedId
  fingerprint_eq : p.fingerprint =
    requestFingerprint terms (Request.createdId context terms requestedId) holds

section

variable {p : CreatePlan} {now : Timestamp} {context : RequestContext} {terms : ReservationTerms}
  {requestedId : ReservationId} {dryRun : Bool} {holds : List HoldId}

/-- The plan of a request refuses its attempt. -/
theorem CreatePlan.For.refuses (h : p.For now context terms requestedId holds)
    (real : dryRun = false) (attempted : context.attempt.isNil = false) (outcome : AdmissionOutcome) :
    (Request.create now context terms requestedId dryRun holds).Carries (.refusal (attemptFor
      p.context p.fingerprint outcome ⟨p.id, 0⟩ 0 p.terms.claimant p.now)) := by
  refine ⟨real, attempted, outcome, ?_⟩
  rw [h.context_eq, h.fingerprint_eq, h.terms_eq, h.now_eq, h.id_eq]

/-- The plan of a request commits its terms. -/
theorem CreatePlan.For.commits (h : p.For now context terms requestedId holds)
    (real : dryRun = false) (attempted : context.attempt.isNil = false)
    {victims : List IndexEntry} :
    (Request.create now context terms requestedId dryRun holds).Carries (.create p victims) :=
  ⟨real, attempted, h.now_eq, h.context_eq, h.terms_eq, h.holds_eq, h.id_eq, h.fingerprint_eq⟩

end

theorem absent_of_not_isSome {α : Type} {x : Option α} (h : x.isSome = false) : x = none := by
  cases x with
  | none => rfl
  | some a => exact absurd h (by simp)

/-- **The checks of a create** prepare, and then establish what the plan needs. -/
theorem ensures_admitCreate (now : Timestamp) (context : RequestContext) (terms : ReservationTerms)
    (requestedId : ReservationId) (dryRun : Bool) (holds : List HoldId) {c : Coordinator}
    (idle : Idle c) :
    Op.Ensures (admitCreate now context terms requestedId dryRun holds) c fun r d =>
      Prepared (.create now context terms requestedId dryRun holds) c d ∧
        ∀ p, r = .ok (.inr p) → p.Admitted d ∧ p.For now context terms requestedId holds ∧
          context.attempt.isNil = false := by
  have refused : ∀ (d : Coordinator) (e : Error),
      Prepared (.create now context terms requestedId dryRun holds) c d →
        Prepared (.create now context terms requestedId dryRun holds) c d ∧
          ∀ p, (.error e : Except Error (CommitResult ⊕ CreatePlan)) = .ok (.inr p) →
            p.Admitted d ∧ p.For now context terms requestedId holds ∧
              context.attempt.isNil = false := fun d e prepared => ⟨prepared, fun _ no => nomatch no⟩
  unfold admitCreate
  apply Op.ensures_get_bind
  refine Op.ensures_lift_bind (fun _ valid => ?_) fun _ _ => refused c _ (Runs.refl c)
  refine Op.ensures_lift_bind (fun _ sound => ?_) fun _ _ => refused c _ (Runs.refl c)
  refine Op.ensures_refuseIf_bind (fun owner => ?_) fun _ => refused c _ (Runs.refl c)
  apply Op.ensures_bind
  refine (within_ensureClaimant_prepared (.create now context terms requestedId dryRun holds)
    rfl c).mono ?_
  rintro (e | ⟨⟩) c₁ first
  · exact refused c₁ _ first
  apply Op.ensures_bind
  refine (within_reconcile_prepared (.create now context terms requestedId dryRun holds) now
    c₁).mono ?_
  rintro (e | ⟨⟩) d second
  · exact refused d _ (first.trans second)
  have prepared : Prepared (.create now context terms requestedId dryRun holds) c d :=
    first.trans second
  have framed := prepared.framed idle
  apply Op.ensures_get_bind
  rcases named : d.policyFor terms.policy with ⟨policy, note⟩
  dsimp only
  refine Op.ensures_lift_bind (fun _ limits => ?_) fun _ _ => refused d _ prepared
  cases known : d.attempts[context.attempt]? with
  | some previous =>
    refine Op.ensures_refuseIf_bind (fun _ => ?_) fun _ => refused d _ prepared
    exact ⟨prepared, fun _ no => nomatch no⟩
  | none =>
    dsimp only
    refine Op.ensures_refuseIf_bind (fun fresh => ?_) fun _ => refused d _ prepared
    refine Op.ensures_refuseIf_bind (fun members => ?_) fun _ => refused d _ prepared
    refine Op.ensures_refuseIf_bind (fun _ => ?_) fun _ => refused d _ prepared
    refine Op.ensures_lift_bind (fun binding bound => ?_) fun _ _ => refused d _ prepared
    refine Op.ensures_lift_bind (fun intervals expanded => ?_) fun _ _ => refused d _ prepared
    refine ⟨prepared, fun p same => ?_⟩
    obtain rfl := Sum.inr.inj (Except.ok.inj same)
    refine ⟨?_, ⟨rfl, rfl, rfl, rfl, rfl, rfl⟩, validateContext_attempt valid⟩
    exact
      { context := (framed.validateContext context true).trans valid
        terms := sound
        claimant := by
          rcases Bool.and_eq_false_iff.mp owner with absent | same
          · exact .inl (by simpa using absent)
          · exact .inr (by simpa using same)
        policy := (congrArg Prod.fst named).symm
        limits := limits
        series := rfl
        unused := known
        fresh := absent_of_not_isSome fresh
        freshMembers := fun enabled id mem => by
          have none := (Bool.and_eq_false_iff.mp members).resolve_left
            fun off => absurd (enabled.symm.trans off) (by decide)
          exact absent_of_not_isSome (Bool.eq_false_iff.mpr (List.any_eq_false.mp none id mem))
        binding := bound
        intervals := expanded }

/-- A durable refusal is one move. -/
theorem ensures_refuseAttempt {P : Coordinator → Move → Prop} {Q : Move → Prop} (quiet : Q .quiet)
    {c e : Coordinator}
    (idle : Idle c) (evaluation : Evaluation c e) {attempt : DurableSequence → AttemptRecord}
    (sequenced : ∀ s, attempt s = { attempt 0 with resultSequence := s })
    (unused : c.attempts[(attempt 0).attempt]? = none) (own : P c (.refusal (attempt 0))) :
    Op.Ensures (refuseAttempt attempt) e fun r e' => match r with
      | .ok _ => EvaluatedAt P c e'
      | .error _ => Evaluated Q c e' := by
  unfold refuseAttempt
  apply Op.ensures_bind
  refine (ensures_appendRecord _ e).mono ?_
  rintro (err | sequence) e₁ spec
  · exact evaluation.faultsOnly quiet idle spec
  · obtain ⟨rfl, appended⟩ := spec
    apply Op.ensures_modify_bind
    have last : e.store.lastSequence = c.store.lastSequence := by
      obtain ⟨⟨index, suspended, rfl⟩, -, -, -⟩ := evaluation
      rfl
    rw [last, sequenced]
    have zero : (attempt 0).resultSequence = 0 := by
      rw [sequenced]
    obtain ⟨⟨index, suspended, rfl⟩, wf, able, has⟩ := evaluation
    obtain ⟨w, faults, rfl⟩ := appended
    generalize attempt 0 = outcome at unused own zero w
    have takes : (Move.refusal outcome).Takes c
        ((c.logged (.attemptOutcome outcome) faults).rememberAttempt
          { outcome with resultSequence := c.store.lastSequence + 1 }) :=
      ⟨zero, unused, c.logged (.attemptOutcome outcome) faults, ⟨w, faults, rfl⟩, rfl⟩
    have runs := RunsAt.one own takes idle
    refine ⟨_, runs.1, runs.2, ⟨index, suspended, ?_⟩, wf, ?_, has⟩
    · exact aside_rememberAttempt _ (c.logged (.attemptOutcome outcome) faults) index suspended
    · exact ⟨able.valid, able.single, able.absent⟩

/-- The commit of a create is one move, and nothing has happened if it fails. -/
theorem ensures_commitCreate {c e : Coordinator} (idle : Idle c) {p : CreatePlan}
    {victims : List IndexEntry} (admitted : p.Admitted c) (h : Planned c p.holds victims e)
    (live : ∀ id ∈ p.holds, ∃ hold, c.holds[id]? = some hold ∧ hold.released = false)
    {evaluations : List Assessment}
    (closes : e.evaluate p.terms p.binding p.policy p.intervals = .ok evaluations) :
    Op.Ensures (commitCreate p (e.createMutation p victims)) e fun r e' => match r with
      | .ok _ => (Move.create p victims).Takes c e'
      | .error _ => FaultsOnly e e' ∧
          e.appends (.reservationCommit (e.createMutation p victims)) = false := by
  unfold commitCreate
  apply Op.ensures_bind
  refine (ensures_appendPredicted _ e).mono ?_
  rintro (err | sequence) e₁ spec
  · exact spec
  · obtain ⟨rfl, appended, -⟩ := spec
    have takes : (Move.create p victims).Takes c ((projectCreate p (e.createMutation p victims)
        (e.store.lastSequence + 1)).exec e₁).2 := by
      rw [← appended.lastSequence]
      exact ⟨admitted, e, h.evaluation, ⟨evaluations, closes⟩, h.displaceable, live, h.taken, e₁,
        appended, rfl⟩
    have windows := (expandSeries_length admitted.intervals).2
    have sound : ∀ r ∈ (e.createMutation p victims).record :: (e.createMutation p victims).members,
        r.Sound := by
      rw [createMutation_records e victims windows]
      obtain ⟨⟨index, suspended, rfl⟩, -, -, -⟩ := h.evaluation
      exact sound_createRecords idle.consistent admitted
    have projected := ensures_projectCreate ((h.evaluation.consistent idle.consistent).appended
      appended) p sound (e.store.lastSequence + 1)
    apply Op.ensures_bind
    rcases run : (projectCreate p (e.createMutation p victims)
      (e.store.lastSequence + 1)).exec e₁ with ⟨r, e'⟩
    obtain ⟨rfl, -⟩ := projected.of_run run
    unfold Op.Ensures
    rw [run] at takes ⊢
    exact takes

/-- What a create decides: a refusal, nothing, or its commit. -/
theorem ends_decideCreate {request : Request} {Q : Move → Prop} (quiet : Q .quiet)
    {c₀ c e : Coordinator} (idle : Idle c) {p : CreatePlan} (admitted : p.Admitted c) {dryRun : Bool}
    (refuses : dryRun = false → ∀ outcome, request.Carries (.refusal (attemptFor p.context
      p.fingerprint outcome ⟨p.id, 0⟩ 0 p.terms.claimant p.now)))
    (commits : dryRun = false → ∀ victims, MakesFrom request c₀ c (.create p victims))
    {evaluation : Except Assessment (List Assessment × List IndexEntry)}
    (evaluated : match evaluation with
      | .ok (evaluations, victims) => Planned c p.holds victims e ∧
          (∀ id ∈ p.holds, ∃ hold, c.holds[id]? = some hold ∧ hold.released = false) ∧
          e.evaluate p.terms p.binding p.policy p.intervals = .ok evaluations
      | .error _ => Evaluation c e) :
    EndsEvaluated (MakesFrom request c₀) Q c (decideCreate p dryRun evaluation) e := by
  rcases evaluation with failure | ⟨evaluations, victims⟩
  · unfold decideCreate finishCreate
    dsimp only at evaluated ⊢
    apply Op.ensures_bind
    refine Op.ensures_ite (fun _ => evaluated.evaluatedAt idle) fun real => ?_
    apply Op.ensures_bind
    refine (ensures_refuseAttempt (P := MakesFrom request c₀) quiet idle evaluated (fun _ => rfl)
      admitted.unused (refusal_makesFrom (refuses (by simpa using real) _))).mono ?_
    rintro (err | sequence) e' ends
    · exact ends
    · exact ends
  · unfold decideCreate
    dsimp only at evaluated ⊢
    obtain ⟨planned, live, closes⟩ := evaluated
    refine Op.ensures_ite (fun _ => planned.evaluation.evaluatedAt idle) fun real => ?_
    apply Op.ensures_get_bind
    apply Op.ensures_bind
    refine (ensures_commitCreate idle admitted planned live closes).mono ?_
    rintro (err | sequence) e' ends
    · exact planned.evaluation.faultsOnly quiet idle ends.1
    · exact (RunsAt.one (commits (by simpa using real) victims) ends).evaluated idle

/-- A create from its evaluation on. -/
theorem ends_evaluatedCreate {request : Request} {Q : Move → Prop} (quiet : Q .quiet)
    (reindexed : Q .reindexed) {c d : Coordinator} {p : CreatePlan} (admitted : p.Admitted d)
    {dryRun : Bool} (refuses : dryRun = false → ∀ outcome, request.Carries (.refusal (attemptFor
      p.context p.fingerprint outcome ⟨p.id, 0⟩ 0 p.terms.claimant p.now)))
    (commits : dryRun = false → ∀ victims, MakesFrom request c d (.create p victims)) :
    EndsAt (MakesFrom request c) Q (withSuspension do
      let evaluation ← evaluateCreate p
      decideCreate p dryRun evaluation) d := by
  refine ends_withSuspension (fun _ => incidental_makesFrom trivial) reindexed fun idle => ?_
  apply Op.ensures_bind
  refine (ensures_evaluateCreate idle).mono ?_
  rintro (err | evaluation) e evaluated
  · exact evaluated.evaluated idle
  refine ends_decideCreate quiet idle admitted refuses commits ?_
  rcases evaluation with failure | ⟨evaluations, victims⟩
  · exact evaluated
  · exact evaluated

/-- **A create** that fails before its commit has made incidental moves only. -/
theorem ends_createCommit (now : Timestamp) (context : RequestContext) (terms : ReservationTerms)
    (requestedId : ReservationId) (dryRun : Bool) (holds : List HoldId) (c : Coordinator) :
    EndsAt (MakesFrom (.create now context terms requestedId dryRun holds) c)
      (Request.create now context terms requestedId dryRun holds).Incidental
      (createCommit now context terms requestedId dryRun holds) c := by
  refine .intro fun idle => ?_
  unfold createCommit
  rcases run : (admitCreate now context terms requestedId dryRun holds).exec c with ⟨r, d⟩
  obtain ⟨prepared, plans⟩ :=
    (ensures_admitCreate now context terms requestedId dryRun holds idle).of_run run
  refine .bind (fun _ _ => incidental_makesFrom) (.of_exec run ⟨prepared.incidental, ?_⟩)
  rintro (replay | p) rfl
  · exact .pure _
  obtain ⟨admitted, plan, attempted⟩ := plans p rfl
  exact ends_evaluatedCreate trivial trivial admitted (fun real => plan.refuses real attempted)
    fun real _ => ⟨.inr (plan.commits real attempted), run⟩

/-! ## Amend -/

/-- The plan is one of the request's. -/
structure AmendPlan.For (p : AmendPlan) (now : Timestamp) (context : RequestContext)
    (target : ReservationId) (generation : ReservationGeneration) (terms : ReservationTerms) :
    Prop where
  now_eq : p.now = now
  context_eq : p.context = context
  target_eq : p.target = ⟨target, generation⟩
  terms_eq : p.terms = terms
  fingerprint_eq : p.fingerprint = amendmentFingerprint target generation terms

section

variable {p : AmendPlan} {now : Timestamp} {context : RequestContext} {target : ReservationId}
  {generation : ReservationGeneration} {terms : ReservationTerms} {dryRun : Bool}

/-- The plan of a request refuses its attempt. -/
theorem AmendPlan.For.refuses (h : p.For now context target generation terms)
    (real : dryRun = false) (attempted : context.attempt.isNil = false) (outcome : AdmissionOutcome) :
    (Request.amend now context target generation terms dryRun).Carries (.refusal (attemptFor
      p.context p.fingerprint outcome p.target 0 p.terms.claimant p.now)) := by
  refine ⟨real, attempted, outcome, ?_⟩
  rw [h.context_eq, h.fingerprint_eq, h.terms_eq, h.now_eq, h.target_eq]

/-- The plan of a request commits its terms. -/
theorem AmendPlan.For.commits (h : p.For now context target generation terms)
    (real : dryRun = false) (attempted : context.attempt.isNil = false)
    {superseded successors : List ReservationRecord} {mutation : ReservationMutation} :
    (Request.amend now context target generation terms dryRun).Carries
      (.amend p superseded successors mutation) :=
  ⟨real, attempted, h.now_eq, h.context_eq, h.target_eq, h.terms_eq, h.fingerprint_eq⟩

end

/-- **The checks of an amendment** prepare, and then establish what the plan needs. -/
theorem ensures_admitAmend (now : Timestamp) (context : RequestContext) (target : ReservationId)
    (generation : ReservationGeneration) (terms : ReservationTerms) (dryRun : Bool)
    {c : Coordinator} (idle : Idle c) :
    Op.Ensures (admitAmend now context target generation terms) c fun r d =>
      Prepared (.amend now context target generation terms dryRun) c d ∧
        ∀ p, r = .ok (.inr p) → p.Admitted d ∧ p.For now context target generation terms ∧
          context.attempt.isNil = false := by
  have refused : ∀ (d : Coordinator) (e : Error),
      Prepared (.amend now context target generation terms dryRun) c d →
        Prepared (.amend now context target generation terms dryRun) c d ∧
          ∀ p, (.error e : Except Error (AmendmentResult ⊕ AmendPlan)) = .ok (.inr p) →
            p.Admitted d ∧ p.For now context target generation terms ∧
              context.attempt.isNil = false := fun d e prepared => ⟨prepared, fun _ no => nomatch no⟩
  unfold admitAmend
  apply Op.ensures_get_bind
  refine Op.ensures_lift_bind (fun _ valid => ?_) fun _ _ => refused c _ (Runs.refl c)
  refine Op.ensures_lift_bind (fun _ sound => ?_) fun _ _ => refused c _ (Runs.refl c)
  apply Op.ensures_get_bind
  cases found : c.findRecord target generation with
  | none => exact refused c _ (Runs.refl c)
  | some predecessor =>
    dsimp only
    cases known : c.attempts[context.attempt]? with
    | some previous =>
      refine Op.ensures_refuseIf_bind (fun _ => ?_) fun _ => refused c _ (Runs.refl c)
      exact ⟨Runs.refl c, fun _ no => nomatch no⟩
    | none =>
      refine Op.ensures_refuseIf_bind (fun _ => ?_) fun _ => refused c _ (Runs.refl c)
      refine Op.ensures_refuseIf_bind (fun _ => ?_) fun _ => refused c _ (Runs.refl c)
      refine Op.ensures_refuseIf_bind (fun _ => ?_) fun _ => refused c _ (Runs.refl c)
      apply Op.ensures_bind
      refine (within_ensureClaimant_prepared (.amend now context target generation terms dryRun)
        rfl c).mono ?_
      rintro (e | ⟨⟩) c₁ first
      · exact refused c₁ _ first
      apply Op.ensures_bind
      refine (within_reconcile_prepared (.amend now context target generation terms dryRun) now
        c₁).mono ?_
      rintro (e | ⟨⟩) d second
      · exact refused d _ (first.trans second)
      have prepared : Prepared (.amend now context target generation terms dryRun) c d :=
        first.trans second
      have framed := prepared.framed idle
      unfold findRecord at found
      obtain ⟨current, there⟩ := framed.stored _ _ found
      apply Op.ensures_get_bind
      rcases named : d.policyFor terms.policy with ⟨policy, note⟩
      dsimp only
      refine Op.ensures_lift_bind (fun binding bound => ?_) fun _ _ => refused d _ prepared
      refine Op.ensures_lift_bind (fun intervals expanded => ?_) fun _ _ => refused d _ prepared
      refine ⟨prepared, fun p same => ?_⟩
      obtain rfl := Sum.inr.inj (Except.ok.inj same)
      refine ⟨?_, ⟨rfl, rfl, rfl, rfl, rfl⟩, validateContext_attempt valid⟩
      exact
        { context := (framed.validateContext context true).trans valid
          terms := sound
          policy := (congrArg Prod.fst named).symm
          unused := (congrArg (fun m : Map AttemptId AttemptRecord => m[context.attempt]?)
            framed.attempts).trans known
          predecessor := by
            change d.records[_]? = some ((d.findRecord target generation).getD predecessor)
            unfold findRecord
            rw [there]
            rfl
          binding := bound
          intervals := expanded }

/-- The generations an amendment supersedes leave the index for its evaluation. -/
theorem Evaluation.ensures_suspendEach {c : Coordinator} : ∀ {rs : List ReservationRecord} {e : Coordinator},
    Evaluation c e → Op.Ensures (Op.each Coordinator.suspend rs) e fun r e' => r = .ok () ∧ Evaluation c e' ∧
      ∀ s ∈ e'.suspended, s ∈ e.suspended ∨
        s.kind = .reservation ∧ ∃ r ∈ rs, r.id = s.id ∧ r.generation = s.holderGeneration
  | [], e, h => ⟨rfl, h, fun _ hs => .inl hs⟩
  | r :: rs, e, h => by
    apply Op.ensures_bind
    refine (h.ensures_suspend r).mono ?_
    rintro _ e₁ ⟨rfl, h₁, out⟩
    refine (Evaluation.ensures_suspendEach h₁).mono ?_
    rintro _ e' ⟨rfl, h', out'⟩
    refine ⟨rfl, h', fun s hs => ?_⟩
    rcases out' s hs with hs | ⟨kind, r', mem, same⟩
    · rcases out s hs with hs | ⟨kind, id, generation⟩
      · exact .inl hs
      · exact .inr ⟨kind, r, List.mem_cons_self, id.symm, generation.symm⟩
    · exact .inr ⟨kind, r', List.mem_cons_of_mem _ mem, same⟩

/-- The commit of an amendment is one move, and nothing has happened if it fails. -/
theorem ensures_commitAmend {c e : Coordinator} (idle : Idle c) {p : AmendPlan}
    (admitted : p.Admitted c)
    {superseded successors : List ReservationRecord} {mutation : ReservationMutation}
    (chosen : c.supersededBy p = .ok superseded) (evaluation : Evaluation c e)
    (taken : ∀ s ∈ e.suspended, s.kind = .reservation ∧
      ∃ r ∈ superseded, r.id = s.id ∧ r.generation = s.holderGeneration)
    {evaluations : List Assessment}
    (closes : e.evaluate p.terms p.binding p.policy p.intervals = .ok evaluations)
    (made : e.amendMutation p superseded = .ok (mutation, successors)) :
    Op.Ensures (commitAmend p superseded successors mutation) e fun r e' => match r with
      | .ok _ => (Move.amend p superseded successors mutation).Takes c e'
      | .error _ => FaultsOnly e e' ∧ e.appends (.reservationAmend mutation) = false := by
  unfold commitAmend
  apply Op.ensures_get_bind
  apply Op.ensures_get_bind
  dsimp only
  apply Op.ensures_bind
  refine (ensures_appendPredicted _ e).mono ?_
  rintro (err | sequence) e₁ spec
  · exact spec
  · obtain ⟨rfl, appended, -⟩ := spec
    have takes : (Move.amend p superseded successors mutation).Takes c
        ((projectAmend p superseded successors mutation
          (e.makeProvenance p.context e.predictedSequence p.now)
          (e.store.lastSequence + 1)).exec e₁).2 := by
      rw [← appended.lastSequence]
      exact ⟨admitted, chosen, e, evaluation, ⟨evaluations, closes⟩, made, taken, e₁, appended, rfl⟩
    have same : e.amendMutation p superseded = c.amendMutation p superseded := by
      obtain ⟨⟨index, suspended, rfl⟩, -, -, -⟩ := evaluation
      rfl
    have projected := ensures_projectAmend ((evaluation.consistent idle.consistent).appended
      appended) p superseded (sound_amendMutation idle.consistent admitted (same ▸ made)) mutation
      (e.makeProvenance p.context e.predictedSequence p.now) (e.store.lastSequence + 1)
    dsimp only
    rcases run : (projectAmend p superseded successors mutation
      (e.makeProvenance p.context e.predictedSequence p.now)
      (e.store.lastSequence + 1)).exec e₁ with ⟨r, e'⟩
    obtain ⟨rfl, -⟩ := projected.of_run run
    unfold Op.Ensures
    rw [run] at takes ⊢
    exact takes

/-- What an amendment decides: a refusal, nothing, or its commit. -/
theorem ends_decideAmend {request : Request} {Q : Move → Prop} (quiet : Q .quiet)
    {c₀ c e : Coordinator} (idle : Idle c) {p : AmendPlan} (admitted : p.Admitted c) {dryRun : Bool}
    (refuses : dryRun = false → ∀ outcome, request.Carries (.refusal (attemptFor p.context
      p.fingerprint outcome p.target 0 p.terms.claimant p.now)))
    (commits : dryRun = false → ∀ superseded successors mutation,
      MakesFrom request c₀ c (.amend p superseded successors mutation))
    {superseded : List ReservationRecord} (chosen : c.supersededBy p = .ok superseded)
    (evaluation : Evaluation c e)
    (taken : ∀ s ∈ e.suspended, s.kind = .reservation ∧
      ∃ r ∈ superseded, r.id = s.id ∧ r.generation = s.holderGeneration) :
    EndsEvaluated (MakesFrom request c₀) Q c
      (decideAmend p dryRun superseded (e.evaluate p.terms p.binding p.policy p.intervals)) e := by
  cases closes : e.evaluate p.terms p.binding p.policy p.intervals with
  | error short =>
    unfold decideAmend finishAmend
    dsimp only
    apply Op.ensures_bind
    apply Op.ensures_bind
    refine Op.ensures_when (fun real => ?_) fun _ => evaluation.evaluatedAt idle
    apply Op.ensures_discard
    refine (ensures_refuseAttempt (P := MakesFrom request c₀) quiet idle evaluation (fun _ => rfl)
      admitted.unused (refusal_makesFrom (refuses (by simpa using real) _))).mono ?_
    rintro (err | sequence) e' ends
    · exact ends
    · exact ends
  | ok evaluations =>
    unfold decideAmend
    dsimp only
    refine Op.ensures_ite (fun _ => evaluation.evaluatedAt idle) fun real => ?_
    apply Op.ensures_get_bind
    refine Op.ensures_lift_bind (fun ⟨mutation, successors⟩ made => ?_) fun _ _ =>
      evaluation.evaluated idle
    apply Op.ensures_bind
    refine (ensures_commitAmend idle admitted chosen evaluation taken closes made).mono ?_
    rintro (err | ⟨⟩) e' ends
    · exact evaluation.faultsOnly quiet idle ends.1
    · exact (RunsAt.one (commits (by simpa using real) superseded successors mutation)
        ends).evaluated idle

/-- An amendment from its evaluation on. -/
theorem ends_evaluatedAmend {request : Request} {Q : Move → Prop} (quiet : Q .quiet)
    (reindexed : Q .reindexed) {c d : Coordinator} {p : AmendPlan} (admitted : p.Admitted d)
    {dryRun : Bool} (refuses : dryRun = false → ∀ outcome, request.Carries (.refusal (attemptFor
      p.context p.fingerprint outcome p.target 0 p.terms.claimant p.now)))
    (commits : dryRun = false → ∀ superseded successors mutation,
      MakesFrom request c d (.amend p superseded successors mutation)) :
    EndsAt (MakesFrom request c) Q (withSuspension do
      let superseded ← Op.lift ((← get).supersededBy p)
      Op.each suspend superseded
      let evaluation := (← get).evaluate p.terms p.binding p.policy p.intervals
      decideAmend p dryRun superseded evaluation) d := by
  refine ends_withSuspension (fun _ => incidental_makesFrom trivial) reindexed fun idle => ?_
  apply Op.ensures_get_bind
  refine Op.ensures_lift_bind (fun superseded chosen => ?_) fun _ _ =>
    (Evaluation.start idle).evaluated idle
  apply Op.ensures_bind
  refine (Evaluation.start idle).ensures_suspendEach.mono ?_
  rintro _ e ⟨rfl, evaluation, out⟩
  apply Op.ensures_get_bind
  refine ends_decideAmend quiet idle admitted refuses commits chosen evaluation fun s hs => ?_
  refine (out s hs).resolve_left fun before => ?_
  rw [idle.suspended] at before
  exact absurd before List.not_mem_nil

/-- **An amendment** that fails before its commit has made incidental moves only. -/
theorem ends_amendCommit (now : Timestamp) (context : RequestContext) (target : ReservationId)
    (generation : ReservationGeneration) (terms : ReservationTerms) (dryRun : Bool)
    (c : Coordinator) :
    EndsAt (MakesFrom (.amend now context target generation terms dryRun) c)
      (Request.amend now context target generation terms dryRun).Incidental
      (amendCommit now context target generation terms dryRun) c := by
  refine .intro fun idle => ?_
  unfold amendCommit
  rcases run : (admitAmend now context target generation terms).exec c with ⟨r, d⟩
  obtain ⟨prepared, plans⟩ :=
    (ensures_admitAmend now context target generation terms dryRun idle).of_run run
  refine .bind (fun _ _ => incidental_makesFrom) (.of_exec run ⟨prepared.incidental, ?_⟩)
  rintro (replay | p) rfl
  · exact .pure _
  obtain ⟨admitted, plan, attempted⟩ := plans p rfl
  exact ends_evaluatedAmend trivial trivial admitted (fun real => plan.refuses real attempted)
    fun real _ _ _ => ⟨.inr (plan.commits real attempted), run⟩

/-! ## Every request -/

/-- The maintenance behind a commit. -/
theorem within_maintain {α : Type} {P : Move → Prop} (hP : ∀ m, Settling m → P m)
    (answer : α × Option Timestamp) : Op.Within (Runs P) (maintain answer) := by
  rcases answer with ⟨a, _ | now⟩
  · rw [maintain_none]
    exact Op.within_pure a
  · rw [maintain_some]
    exact Op.within_bind (within_settle hP now) fun _ => Op.within_pure a

theorem ensures_create (now : Timestamp) (context : RequestContext) (terms : ReservationTerms)
    (requestedId : ReservationId) (dryRun : Bool) (holds : List HoldId) (c : Coordinator) :
    Op.Ensures (create now context terms requestedId dryRun holds) c fun _ c' =>
      RunsAt (MakesFrom (.create now context terms requestedId dryRun holds) c) c c' := by
  rw [create_eq]
  apply Op.ensures_bind
  refine ((ends_createCommit now context terms requestedId dryRun holds c).runs
    fun _ _ => incidental_makesFrom).mono ?_
  rintro (e | answer) d runs
  · exact runs
  · exact (within_maintain (P := Settling) (fun _ h => h) answer d).mono fun _ _ later =>
      runs.trans (later.anywhere fun _ _ h => h.makesFrom)

theorem ensures_amend (now : Timestamp) (context : RequestContext) (target : ReservationId)
    (generation : ReservationGeneration) (terms : ReservationTerms) (dryRun : Bool)
    (c : Coordinator) : Op.Ensures (amend now context target generation terms dryRun) c fun _ c' =>
      RunsAt (MakesFrom (.amend now context target generation terms dryRun) c) c c' := by
  rw [amend_eq]
  apply Op.ensures_bind
  refine ((ends_amendCommit now context target generation terms dryRun c).runs
    fun _ _ => incidental_makesFrom).mono ?_
  rintro (e | answer) d runs
  · exact runs
  · exact (within_maintain (P := Settling) (fun _ h => h) answer d).mono fun _ _ later =>
      runs.trans (later.anywhere fun _ _ h => h.makesFrom)

/-- The moves of a request that found `c`, its reviews looked at. -/
def Performs (request : Request) (c : Coordinator) (m : Move) : Prop :=
  request.Makes m ∧ (m.Reviews → request.Reviews c m)

theorem Performs.of_does {request : Request} {c : Coordinator} {m : Move} (h : request.Does m) :
    Performs request c m := ⟨h.1, fun no => absurd no h.2⟩

theorem Performs.of_housekeeping {request : Request} {c : Coordinator} {m : Move}
    (h : Housekeeping m) (plain : ¬ m.Reviews) : Performs request c m :=
  ⟨h.makes request, fun no => absurd no plain⟩

theorem Performs.of_refresh {request : Request} {c e : Coordinator} {now : Timestamp} {m : Move}
    (h : RefreshMakes now true e m) (own : request.Reviews c m) : Performs request c m :=
  ⟨h.housekeeping.makes request, fun _ => own⟩

theorem ensures_reconcileLifecycle (now : Timestamp) (context : RequestContext) (c : Coordinator) :
    Op.Ensures (reconcileLifecycle now context) c fun _ c' =>
      Runs (Performs (.reconcileLifecycle now context) c) c c' := by
  have clocked : ∀ m, Clocked m → Performs (.reconcileLifecycle now context) c m := fun m h =>
    .of_housekeeping h.housekeeping h.unreviewing
  unfold reconcileLifecycle
  apply Op.ensures_get_bind
  refine Op.ensures_lift_bind (fun _ valid => ?_) fun _ _ => Runs.refl c
  refine Op.ensures_bind_run fun r e reconciled => ?_
  have runs := (within_reconcile clocked now c).of_run reconciled
  rcases r with err | ⟨⟩
  · exact runs
  have opened : (openReconcile now context).exec c = (.ok (), e) := by
    unfold openReconcile
    rw [Op.exec_get_bind, valid, Op.exec_bind_of_ok (Op.exec_lift_ok _ _)]
    exact reconciled
  have rest : Op.Within (Runs (Performs (.reconcileLifecycle now context) c)) (do
      settle now
      let stats := (← get).stats
      pure { transitions := (stats.expiries - c.stats.expiries) +
        (stats.revocations - c.stats.revocations) } : Method LifecycleResult) := by
    refine Op.within_bind (within_settle (fun m h =>
      .of_housekeeping h.housekeeping h.unreviewing) now) fun _ => ?_
    exact Op.within_bind Op.within_get fun _ => Op.within_pure _
  have refreshes : ∀ m, RefreshMakes now true e m → Performs (.reconcileLifecycle now context) c m :=
    fun m made => .of_refresh made ⟨e, opened, made⟩
  apply Op.ensures_bind
  refine (ensures_refreshApplicability now true refreshes).mono ?_
  rintro (err | ⟨⟩) d later
  · exact runs.trans later
  · exact (rest d).mono fun _ _ last => (runs.trans later).trans last

theorem within_reconcileAttempt {P : Move → Prop} (context : RequestContext) (attempt : AttemptId) :
    Op.Within (Runs P) (reconcileAttempt context attempt) := by
  unfold reconcileAttempt
  refine Op.within_get_bind fun c => ?_
  refine Op.ensures_lift_bind (fun _ _ => ?_) fun _ _ => Runs.refl c
  split
  · exact Runs.refl c
  · exact Runs.refl c

/-- **Every request** is a sequence of the moves it may make, whether it succeeds or fails. -/
theorem ensures_perform (request : Request) (c : Coordinator) :
    Op.Ensures request.perform c fun _ c' => RunsAt (MakesFrom request c) c c' := by
  have clocked : ∀ m, Clocked m → request.Does m := fun _ h => h.does request
  have own : ∀ {α : Type} {m : Method α},
      (∀ d m, (m.Reviews → request.Reviews c m) → request.From c d m) →
      (Op.Ensures m c fun _ c' => Runs (Performs request c) c c') →
        Op.Ensures m c fun _ c' => RunsAt (MakesFrom request c) c c' := fun there h =>
    h.mono fun _ _ runs => runs.anywhere fun d m own => ⟨own.1, there d m own.2⟩
  have does : ∀ {α : Type} {m : Method α},
      (∀ d m, (m.Reviews → request.Reviews c m) → request.From c d m) →
      Op.Within (Runs request.Does) m →
        Op.Ensures m c fun _ c' => RunsAt (MakesFrom request c) c c' := fun there h =>
    own there ((h c).mono fun _ _ runs => runs.mono fun _ => .of_does)
  have discarded : ∀ {α : Type} {m : Method α},
      (Op.Ensures m c fun _ c' => RunsAt (MakesFrom request c) c c') →
        Op.Ensures (discard m) c fun _ c' => RunsAt (MakesFrom request c) c c' := fun h =>
    Op.ensures_discard (h.mono fun r _ runs => by rcases r with _ | _ <;> exact runs)
  cases request with
  | ingestCapacity now stated withdrawals context =>
    refine own (fun _ _ h => h) (ensures_ingestCapacity (fun m h plain => .of_housekeeping h plain)
      now stated withdrawals context (fun _ => .of_does (carries_does trivial))
      (.of_does (carries_does rfl)) (fun _ _ => .of_does (carries_does ⟨rfl, rfl, rfl⟩)) ?_)
    exact fun declared e declares m made => .of_refresh made ⟨declared, e, declares, made⟩
  | ingestPaths now stated context =>
    have there : ∀ d m, Housekeeping m →
        (m.Reviews → Request.Reviews (.ingestPaths now stated context) c m) →
        MakesFrom (.ingestPaths now stated context) c d m := by
      refine fun d m h reviews => ⟨h.makes _, ?_⟩
      cases m <;> first | exact h.elim | exact reviews
    exact ensures_ingestPaths (fun d m h plain => there d m h fun no => absurd no plain) now stated
      context (fun valid checked => ⟨.inr trivial, rfl, valid, checked, rfl⟩)
      (fun valid _ => ⟨.inr ⟨rfl, rfl⟩, valid, rfl⟩)
      fun changed e declares d m made => there d m made.housekeeping fun _ =>
        ⟨changed, e, declares, made⟩
  | ingestPolicy now record context =>
    refine own (fun _ _ h => h) ((within_ingestPolicy (fun m h plain => .of_housekeeping h plain)
      now record context (fun _ => .of_does (carries_does trivial))
      (.of_does (carries_does ⟨rfl, rfl⟩)) fun r => ?_) c)
    exact ⟨Housekeeping.makes _ trivial, fun _ => ⟨r, rfl⟩⟩
  | registerClaimant now claimant generation context =>
    exact does (fun _ _ h => h)
      (within_registerClaimant clocked now claimant generation context (carries_does rfl))
  | fence now context claimant generation boot session claimantWide =>
    exact does (fun _ _ h => h) (within_fence clocked now context claimant generation boot session
      claimantWide (carries_does rfl))
  | create now context terms requestedId dryRun holds =>
    exact discarded (ensures_create now context terms requestedId dryRun holds c)
  | amend now context target generation terms dryRun =>
    exact discarded (ensures_amend now context target generation terms dryRun c)
  | release now context id generation =>
    refine does (fun _ _ h => h) (Op.within_discard fun c => ?_)
    exact (ends_release now context id generation c).runs fun _ => incidental_does
  | «recall» now context id generation effectiveAt grace force =>
    have ends := ends_recall (c := c)
      (P := fun m => ∀ d, MakesFrom (.recall now context id generation effectiveAt grace force) c d m)
      (fun m other h d => ⟨h.1, by
        cases m <;> first | exact absurd rfl (other _ _ _ _ _ _) | exact fun no => absurd no h.2⟩)
      fun s e effect reason opened effective h d => ⟨h.1, e, opened, effective, rfl⟩
    refine discarded ((ends.runs fun m h d => incidental_makesFrom h).mono fun _ _ runs => ?_)
    exact runs.anywhere fun d m h => h d
  | revoke now context id generation =>
    refine does (fun _ _ h => h) (Op.within_discard fun c => ?_)
    exact (ends_revoke now context id generation c).runs fun _ => incidental_does
  | revalidate now context id generation markStale =>
    refine discarded (own (fun _ _ h => h) (ensures_revalidate (fun m h =>
      .of_housekeeping h.housekeeping h.unreviewing) fun s e opened m made => ⟨?_, fun _ => ?_⟩))
    · refine Housekeeping.makes _ ?_
      cases m <;> first | exact made.elim | trivial
    · exact ⟨s, e, opened, made⟩
  | reconcileLifecycle now context =>
    exact discarded (own (fun _ _ h => h) (ensures_reconcileLifecycle now context c))
  | reconcileAttempt context attempt =>
    exact discarded (does (fun _ _ h => h) (within_reconcileAttempt context attempt))
  | acquireHold now context terms expiresAt =>
    refine does (fun _ _ h => h) ?_
    exact Op.within_discard (within_acquireHold clocked now context terms expiresAt
      (carries_does rfl) (fun _ _ named => carries_does ⟨rfl, named⟩) fun _ => carries_does trivial)
  | releaseHold now context id generation =>
    refine does (fun _ _ h => h) ?_
    exact Op.within_discard (within_releaseHoldRequest clocked now context id generation)
  | releaseSession now context =>
    exact does (fun _ _ h => h) (within_releaseSession clocked now context)
  | resolveOvercommit now context resource resolution =>
    exact does (fun _ _ h => h) (within_resolveOvercommit now context resource resolution)
  | getReservation now id generation =>
    refine does (fun _ _ h => h) ?_
    exact Op.within_discard (within_getReservation clocked now id generation)
  | queryClaimant now claimant includeTerminal =>
    refine does (fun _ _ h => h) ?_
    exact Op.within_discard (Op.within_bind (within_reconcile clocked now) fun _ =>
      Op.within_bind Op.within_get fun _ => Op.within_pure _)
  | queryResource now resource window includeTerminal =>
    refine does (fun _ _ h => h) ?_
    exact Op.within_discard (Op.within_bind (within_reconcile clocked now) fun _ =>
      Op.within_bind Op.within_get fun _ => Op.within_pure _)
  | queryRemaining now resource window =>
    refine does (fun _ _ h => h) ?_
    exact Op.within_discard (within_queryRemaining clocked now resource window)
  | explainConflicts now terms candidate =>
    refine does (fun _ _ h => h) ?_
    exact Op.within_discard (within_explainConflicts clocked now terms candidate
      (incidental_does trivial))
  | compact => exact does (fun _ _ h => h) (within_compact fun m h => h.does .compact)
  | flush => exact does (fun _ _ h => h) (within_flush clocked)
  | beginShutdown now =>
    exact does (fun _ _ h => h) (within_beginShutdown clocked now (carries_does trivial))

/-- `open` up to the refresh. -/
def bootIn (boot : Identity128) (now : Timestamp) : Method Unit := do
  let c ← get
  Op.refuseIf (c.incarnation.epoch.val = 18446744073709551615)
    (makeError .overflow "fabric epoch is exhausted")
  let epoch := c.incarnation.epoch + 1
  discard <| append (.fabricBoot { epoch, coordinatorBoot := boot, at' := now })
  modify fun c => { c with incarnation := { epoch, boot } }
  reconcile now

theorem bootUp_eq (boot : Identity128) (now : Timestamp) :
    bootUp boot now = bootIn boot now >>= fun _ =>
      refreshApplicability now true >>= fun _ => releaseTerminalHistory now := by
  unfold bootUp bootIn
  simp only [bind_assoc]

theorem within_bootIn {P : Move → Prop} (hP : ∀ m, Clocked m → P m) (boot : Identity128)
    (now : Timestamp) (own : P (.boot boot now)) : Op.Within (Runs P) (bootIn boot now) := by
  unfold bootIn
  refine Op.within_get_bind fun c => ?_
  refine Op.ensures_refuseIf_bind (fun room => ?_) fun _ => Runs.refl c
  dsimp only
  refine ensures_appended_discard (hP _ trivial) fun c₁ appended => ?_
  apply Op.ensures_modify_bind
  have started : Runs P c { c₁ with incarnation := { epoch := c.incarnation.epoch + 1, boot } } := by
    refine .one own ⟨?_, c₁, appended, rfl⟩
    have bound := c.incarnation.epoch.isLt
    have other := of_decide_eq_false room
    omega
  exact (within_reconcile hP now _).mono fun _ _ later => started.trans later

/-- What `open` does after recovery. -/
def Boots (boot : Identity128) (now : Timestamp) (m : Move) : Prop :=
  Housekeeping m ∨ m = .boot boot now

/-- The reviews of `open`, which has recovered `c`, are those of its refresh. -/
def BootReviews (boot : Identity128) (now : Timestamp) (c : Coordinator) (m : Move) : Prop :=
  ∃ e, (bootIn boot now).exec c = (.ok (), e) ∧ RefreshMakes now true e m

theorem ensures_bootUp (boot : Identity128) (now : Timestamp) (c : Coordinator) :
    Op.Ensures (bootUp boot now) c fun _ c' =>
      Runs (fun m => Boots boot now m ∧ (m.Reviews → BootReviews boot now c m)) c c' := by
  have clocked : ∀ m, Clocked m → Boots boot now m ∧ (m.Reviews → BootReviews boot now c m) :=
    fun m h => ⟨.inl h.housekeeping, fun no => absurd no h.unreviewing⟩
  rw [bootUp_eq]
  refine Op.ensures_bind_run fun r e opened => ?_
  have runs := (within_bootIn clocked boot now ⟨.inr rfl, False.elim⟩ c).of_run opened
  rcases r with err | ⟨⟩
  · exact runs
  have refreshes : ∀ m, RefreshMakes now true e m →
      Boots boot now m ∧ (m.Reviews → BootReviews boot now c m) := fun m made =>
    ⟨.inl made.housekeeping, fun _ => ⟨e, opened, made⟩⟩
  apply Op.ensures_bind
  refine (ensures_refreshApplicability now true refreshes).mono ?_
  rintro (err | ⟨⟩) d later
  · exact runs.trans later
  · refine (within_releaseTerminalHistory (fun m h => ?_) now d).mono fun _ _ last =>
      (runs.trans later).trans last
    exact ⟨.inl h.housekeeping, fun no => absurd no h.unreviewing⟩

end Coordinator

end Brf
