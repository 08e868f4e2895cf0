import Brf.Amendments
import Brf.Evaluations

/-!
# Dry runs

`create_locked` and `amend_locked` with and without `dry_run`, from the same state at the same time.

* `Assessment.decision` is what a preview must tell: outcome, deltas, conflicts and victims.
* `createRecord` and `amendRecord` are the records the real run makes durable for its decision, and
  `createAppends`, `amendAppends` and `archives` say that the journal takes what the real run appends.
* `compacts`: the compaction behind the commit succeeds, if it is due.
* `amendFits`: an amendment that is accepted finds the amended member among the live members of its
  series, at one of the places the new terms have.
* `Quiet c d`: the journal has at most gained claimants and transitions, and no attempt is retained.

Results: `dry_run_predicts` (the preview of a create is right exactly if the compaction succeeds, and
that of an amendment exactly if, besides, the amendment fits) and `expired_member_misses_preview`.
-/

namespace Brf

open Brf.Lib

/-- What a preview tells of a decision. -/
def Assessment.decision (a : Assessment) : AdmissionOutcome × List CapabilityDelta × ConflictSet ×
    List ReservationId × List ReservationGeneration :=
  (a.outcome, a.deltas, a.conflicts, a.victims, a.victimGenerations)

@[simp] theorem Assessment.decision_addNote (a : Assessment) (note : Text) :
    (a.addNote note).decision = a.decision := by
  unfold addNote
  split <;> rfl

namespace Coordinator

/-! ## What the real run appends -/

/-- The record of what a create decides. -/
def createRecord (c : Coordinator) (p : CreatePlan) : Option DurableRecord :=
  match (evaluateCreate p).exec c with
  | (.error _, _) => none
  | (.ok (.error failure), _) => some (.attemptOutcome
      (attemptFor p.context p.fingerprint failure.outcome ⟨p.id, 0⟩ 0 p.terms.claimant p.now))
  | (.ok (.ok (_, victims)), e) => some (.reservationCommit (e.createMutation p victims))

/-- The record of what an amendment decides. -/
def amendRecord (c : Coordinator) (p : AmendPlan) : Option DurableRecord :=
  match c.supersededBy p with
  | .error _ => none
  | .ok superseded =>
    match ((Op.each suspend superseded).exec c).2.evaluate p.terms p.binding p.policy p.intervals with
    | .error (_, failure) => some (.attemptOutcome
        (attemptFor p.context p.fingerprint failure.outcome p.target 0 p.terms.claimant p.now))
    | .ok _ => (c.amendMutation p superseded).toOption.map fun made => .reservationAmend made.1

/-- The journal takes the record of the decision of a create. -/
def createAppends (c : Coordinator) (now : Timestamp) (context : RequestContext)
    (terms : ReservationTerms) (requestedId : ReservationId) (holds : List HoldId) : Bool :=
  match (admitCreate now context terms requestedId false holds).exec c with
  | (.ok (.inr p), d) => (d.createRecord p).all d.appends
  | _ => true

/-- The journal takes the record of the decision of an amendment. -/
def amendAppends (c : Coordinator) (now : Timestamp) (context : RequestContext)
    (target : ReservationId) (generation : ReservationGeneration) (terms : ReservationTerms) : Bool :=
  match (admitAmend now context target generation terms).exec c with
  | (.ok (.inr p), d) => (d.amendRecord p).all d.appends
  | _ => true

/-- The journal takes the record of the archival behind a commit. -/
def archives {α : Type} (c : Coordinator) (commit : Method (α × Option Timestamp)) : Bool :=
  match commit.exec c with
  | (.ok (_, some now), d) => ((releaseTerminalHistory now).exec d).1.toBool
  | _ => true

/-- The compaction behind a commit succeeds, if it is due. -/
def compacts {α : Type} (c : Coordinator) (commit : Method (α × Option Timestamp)) : Bool :=
  match commit.exec c with
  | (.ok (_, some now), d) => (compactIfDue.exec ((releaseTerminalHistory now).exec d).2).1.toBool
  | _ => true

/-- An amendment that is accepted finds its member at one of the places of the new terms. -/
def amendFits (c : Coordinator) (now : Timestamp) (context : RequestContext)
    (target : ReservationId) (generation : ReservationGeneration) (terms : ReservationTerms) : Bool :=
  (c.amendDecision now context target generation terms).all fun (p, _, superseded) =>
    !p.predecessor.seriesMember ||
      (superseded.findIdx? fun r => r.id = target).any fun i => i < terms.windowCount

/-! ## What a dry run leaves behind -/

/-- The journal has at most gained registrations of claimants and transitions; no attempt is
retained. -/
structure Quiet (c d : Coordinator) : Prop where
  journal : ∃ rs, d.store.disk.journal = c.store.disk.journal ++ rs ∧
    ∀ r ∈ rs, r.kind = .claimantRegistration ∨ r.kind = .reservationState
  attempts : d.attempts = c.attempts
  live : d.liveCount ≤ c.liveCount

instance : IsPreorder Coordinator Quiet where
  refl c := ⟨⟨[], by simp⟩, rfl, le_rfl⟩
  trans a b c h h' := by
    obtain ⟨rs, first, kinds⟩ := h.journal
    obtain ⟨rs', second, kinds'⟩ := h'.journal
    refine ⟨⟨rs ++ rs', by rw [second, first, List.append_assoc], fun r mem => ?_⟩,
      h'.attempts.trans h.attempts, h'.live.trans h.live⟩
    exact (List.mem_append.mp mem).elim (kinds r) (kinds' r)

/-- An appended record. -/
theorem quiet_logged (c : Coordinator) (d : DurableRecord) (faults : List Bool)
    (kind : d.kind = .claimantRegistration ∨ d.kind = .reservationState) :
    Quiet c (c.logged d faults) :=
  ⟨⟨_, rfl, fun r mem => by
    obtain rfl := List.mem_singleton.mp mem
    exact kind⟩, rfl, le_rfl⟩

/-- A live record moves on, so no more records are live than before. -/
theorem quiet_moveRecord (c : Coordinator) {r next : ReservationRecord} (y : CapacityIndex)
    (live : isTerminal r.state = false) : Quiet c ((c.moveRecord r next).withIndex y) := by
  obtain ⟨a, e, q, queued⟩ :=
    syncQueues_shape ((c.countState r.state next.state).putRecord next) next
  unfold moveRecord
  rw [queued]
  have counted : ∃ l h, c.countState r.state next.state = { c with liveCount := l, historyCount := h } ∧
      l ≤ c.liveCount := by
    unfold countState
    rw [live]
    by_cases ends : isTerminal next.state = true
    · simp only [ends, Bool.not_false, Bool.true_and, if_true]
      exact ⟨_, _, rfl, Nat.sub_le _ _⟩
    · simp only [ends, Bool.not_false, Bool.true_and, Bool.false_and, Bool.false_eq_true, if_false]
      exact ⟨_, _, rfl, le_rfl⟩
  obtain ⟨l, h, counted, less⟩ := counted
  rw [counted]
  exact ⟨⟨[], by rw [List.append_nil]; rfl, by simp⟩, rfl, less⟩

theorem quiet_prepares {c c' : Coordinator} {m : Move} (idle : Idle c) (h : Prepares m)
    (takes : m.Takes c c') : Quiet c c' := by
  have same : ∀ {d : Coordinator}, d.store.disk = c.store.disk → d.attempts = c.attempts →
      d.liveCount = c.liveCount → Quiet c d := fun disk attempts live =>
    ⟨⟨[], by rw [disk, List.append_nil], by simp⟩, attempts, live.le⟩
  cases m with
  | quiet =>
    obtain ⟨faults, stats, rfl⟩ := takes
    exact same rfl rfl rfl
  | claimant registration =>
    obtain ⟨-, -, c₁, appended, rfl⟩ := takes
    obtain ⟨faults, rfl⟩ := appended.shape
    obtain ⟨journal, attempts, live⟩ :=
      quiet_logged c (.claimantRegistration registration) faults (.inl rfl)
    exact ⟨journal, attempts, live⟩
  | transition r target now reason context retained =>
    have live := takes.2.1
    obtain ⟨faults, y, -, left, -⟩ := takes_transition idle takes
    have unretained : retained = false := h.1
    rw [left, unretained]
    exact IsTrans.trans _ _ _ (quiet_logged c _ faults (.inr rfl)) (quiet_moveRecord _ y live)
  | releaseHold now id reason =>
    obtain ⟨-, rfl⟩ := takes
    obtain ⟨holds, y, left, -, -⟩ := holdsOnly_releaseHold idle.consistent.index now id reason
    rw [left]
    exact same rfl rfl rfl
  | _ => exact absurd h (by simp [Prepares, Clocked])

theorem Prepared.quiet {request : Request} {c d : Coordinator} (h : Prepared request c d)
    (idle : Idle c) : Quiet c d :=
  ((h idle).2.relates_idle idle fun _ _ _ idle own takes => quiet_prepares idle own.1 takes).2

/-! ## Scopes -/

/-- Putting back never fails. -/
theorem restore_ok (c : Coordinator) : (restore.exec c).1 = .ok () := by
  have runs : Op.Ensures restore c fun r _ => r = .ok () := by
    unfold restore
    apply Op.ensures_get_bind
    apply Op.ensures_modify_bind
    refine (Op.ensures_each_ok (I := fun _ => True) trivial fun e _ d _ => ?_).mono fun _ _ h => h.1
    apply Op.ensures_discard
    exact Op.ensures_attempt ⟨rfl, trivial⟩
  exact runs

/-- A scope has the result of its body. -/
theorem withSuspension_result {α : Type} (body : Method α) (c : Coordinator) :
    ((withSuspension body).exec c).1 = (body.exec c).1 := by
  rw [exec_withSuspension]
  have put := restore_ok (body.exec c).2
  rcases back : restore.exec (body.exec c).2 with ⟨_ | _, d⟩
  · rw [back] at put
    cases put
  · rfl

/-- A scope whose body has only evaluated changes the index alone. -/
theorem withSuspension_evaluated {α : Type} {body : Method α} {c : Coordinator}
    (evaluated : Evaluation c (body.exec c).2) :
    ∃ index suspended, ((withSuspension body).exec c).2 = { c with index, suspended } := by
  rw [exec_withSuspension]
  have put := ensures_restore evaluated.wf evaluated.able
  rcases back : restore.exec (body.exec c).2 with ⟨r, d⟩
  obtain ⟨rfl, y, shape, -, -⟩ := put.of_run back
  obtain ⟨⟨index, suspended, start⟩, -, -, -⟩ := evaluated
  rw [start] at shape
  exact ⟨y, [], shape⟩

theorem refuseAttempt_ok {e : Coordinator} {attempt : DurableSequence → AttemptRecord}
    (taken : e.appends (.attemptOutcome (attempt 0)) = true) :
    ∃ sequence, ((refuseAttempt attempt).exec e).1 = .ok sequence := by
  unfold refuseAttempt
  unfold Coordinator.appends at taken
  rw [Op.exec_bind]
  rcases ran : (append (.attemptOutcome (attempt 0))).exec e with ⟨err | sequence, d⟩
  · rw [ran] at taken
    cases taken
  · exact ⟨sequence, rfl⟩

/-! ## A create -/

/-- What a create answers after its checks. -/
def createAnswer (c : Coordinator) (p : CreatePlan) : Except Error AdmissionReport :=
  match ((evaluateCreate p).exec c).1 with
  | .error e => .error e
  | .ok (.error failure) => .ok failure
  | .ok (.ok (evaluations, victims)) => .ok (acceptedReport p evaluations victims)

/-- The scope of a create. -/
def createScope (p : CreatePlan) (dryRun : Bool) : Method (CommitResult × Option Timestamp) :=
  withSuspension do
    let evaluation ← evaluateCreate p
    decideCreate p dryRun evaluation

/-- The dry run commits nothing and changes the index alone. -/
theorem createScope_dry {c : Coordinator} (idle : Idle c) (p : CreatePlan) :
    (∀ result at', ((createScope p true).exec c).1 ≠ .ok (result, some at')) ∧
      ((createScope p true).exec c).1.map (fun a => a.1.report.decision) =
        (c.createAnswer p).map Assessment.decision ∧
      ∃ index suspended, ((createScope p true).exec c).2 = { c with index, suspended } := by
  unfold createScope
  rw [withSuspension_result]
  unfold createAnswer
  rcases run : (evaluateCreate p).exec c with ⟨r, e⟩
  have evaluated := (ensures_evaluateCreate (p := p) idle).of_run run
  have scope : ∀ (body : Method (CommitResult × Option Timestamp)), (body.exec c).2 = e →
      Evaluation c e →
        ∃ index suspended, ((withSuspension body).exec c).2 = { c with index, suspended } :=
    fun body ends evaluation => withSuspension_evaluated (ends ▸ evaluation)
  rcases r with err | (failure | ⟨evaluations, victims⟩)
  · rw [Op.exec_bind_of_error run]
    exact ⟨fun _ _ no => (nomatch no), rfl, scope _ (by rw [Op.exec_bind_of_error run]) evaluated⟩
  · rw [Op.exec_bind_of_ok run]
    exact ⟨fun _ _ no => (nomatch no), rfl, scope _ (by rw [Op.exec_bind_of_ok run]; rfl) evaluated⟩
  · rw [Op.exec_bind_of_ok run]
    exact ⟨fun _ _ no => (nomatch no), rfl, scope _ (by rw [Op.exec_bind_of_ok run]; rfl) evaluated.1.evaluation⟩

/-- The real run decides the same, if the journal takes its record. -/
theorem createScope_real {c : Coordinator} (idle : Idle c) {p : CreatePlan}
    (admitted : p.Admitted c) (taken : (c.createRecord p).all c.appends = true) :
    ((createScope p false).exec c).1.map (fun a => a.1.report.decision) =
      (c.createAnswer p).map Assessment.decision := by
  unfold createScope
  rw [withSuspension_result]
  unfold createAnswer
  unfold createRecord at taken
  rw [Op.exec_bind]
  rcases run : (evaluateCreate p).exec c with ⟨r, e⟩
  rw [run] at taken
  have evaluated := (ensures_evaluateCreate (p := p) idle).of_run run
  rcases r with err | (failure | ⟨evaluations, victims⟩)
  · rfl
  · dsimp only at taken ⊢
    unfold decideCreate finishCreate
    have taken : e.appends _ = true :=
      (Evaluation.appends evaluated _).trans (by simpa using taken)
    obtain ⟨sequence, refused⟩ := @refuseAttempt_ok _ (fun sequence => attemptFor p.context
      p.fingerprint failure.outcome ⟨p.id, 0⟩ sequence p.terms.claimant p.now) taken
    simp only [Bool.false_eq_true, if_false, Op.exec_bind]
    rcases ran : (refuseAttempt _).exec e with ⟨_ | _, d⟩
    · rw [ran] at refused
      cases refused
    · exact congrArg Except.ok (Assessment.decision_addNote failure p.note)
  · obtain ⟨planned, live, closes⟩ := evaluated
    have commits := ensures_commitCreate idle admitted planned live closes
    dsimp only at taken ⊢
    unfold decideCreate
    simp only [Bool.false_eq_true, if_false]
    rw [Op.exec_get_bind, Op.exec_bind]
    rcases ran : (commitCreate p (e.createMutation p victims)).exec e with ⟨err | sequence, d⟩
    · obtain ⟨-, failed⟩ := commits.of_run ran
      rw [planned.evaluation.appends] at failed
      rw [Option.all_some, failed] at taken
      cases taken
    · rfl

/-- Two operations in a row agree if the rests agree on where the first has led. -/
theorem exec_congr {α β : Type} {m : Method α} {f g : α → Method β} {c : Coordinator}
    (same : ∀ a d, m.exec c = (.ok a, d) → (f a).exec d = (g a).exec d) :
    (m >>= f).exec c = (m >>= g).exec c := by
  rw [Op.exec_bind, Op.exec_bind]
  rcases run : m.exec c with ⟨_ | a, d⟩
  · rfl
  · exact same a d run

/-- Below the bound of live reservations the checks of a create are those of its preview. -/
theorem admitCreate_preview {c : Coordinator} (idle : Idle c)
    (below : c.liveCount < c.config.maxLiveReservations) (now : Timestamp)
    (context : RequestContext) (terms : ReservationTerms) (requestedId : ReservationId)
    (holds : List HoldId) :
    (admitCreate now context terms requestedId true holds).exec c =
      (admitCreate now context terms requestedId false holds).exec c := by
  let request := Request.create now context terms requestedId false holds
  have stay : ∀ {x : Result Unit} {a : Unit} {d : Coordinator},
      (Op.lift x : Method Unit).exec c = (.ok a, d) → d = c := fun h => by
    rw [exec_lift] at h
    exact (Prod.mk.inj h).2.symm
  unfold admitCreate
  rw [Op.exec_get_bind, Op.exec_get_bind]
  refine exec_congr fun _ d run => ?_
  rw [stay run]
  refine exec_congr fun _ d run => ?_
  rw [stay run]
  refine exec_congr fun _ d run => ?_
  have same : d = c := by
    rw [Op.exec_refuseIf] at run
    split at run
    · cases run
    · exact (Prod.mk.inj run).2.symm
  rw [same]
  refine exec_congr fun _ c₁ first => ?_
  refine exec_congr fun _ d second => ?_
  have prepared : Prepared request c d :=
    IsTrans.trans _ _ _ ((within_ensureClaimant_prepared request rfl c).of_run first)
      ((within_reconcile_prepared request now c₁).of_run second)
  have room : d.liveCount < d.config.maxLiveReservations := by
    rw [(prepared.framed idle).config]
    exact (prepared.quiet idle).live.trans_lt below
  rw [Op.exec_get_bind, Op.exec_get_bind]
  have flag : (!true && decide (d.config.maxLiveReservations ≤ d.liveCount)) =
      (!false && decide (d.config.maxLiveReservations ≤ d.liveCount)) := by
    simp [room]
  rw [flag]

/-- What the two runs of a create have to do with one another up to the commit. -/
theorem createCommit_preview {c : Coordinator} (idle : Idle c)
    (below : c.liveCount < c.config.maxLiveReservations) (now : Timestamp)
    (context : RequestContext) (terms : ReservationTerms) (requestedId : ReservationId)
    (holds : List HoldId)
    (taken : c.createAppends now context terms requestedId holds = true) :
    let dry := (createCommit now context terms requestedId true holds).exec c
    let real := (createCommit now context terms requestedId false holds).exec c
    (∀ result at', dry.1 ≠ .ok (result, some at')) ∧ Quiet c dry.2 ∧
      dry.2.store = ((openCreate now context terms).exec c).2.store ∧
      dry.1.map (fun a => a.1.report.decision) = real.1.map (fun a => a.1.report.decision) := by
  rw [← end_admitCreate now context terms requestedId false holds c]
  unfold createCommit
  dsimp only
  have same := admitCreate_preview idle below now context terms requestedId holds
  unfold createAppends at taken
  rcases run : (admitCreate now context terms requestedId false holds).exec c with ⟨r, d⟩
  rw [run] at same taken
  obtain ⟨prepared, plans⟩ :=
    (ensures_admitCreate now context terms requestedId false holds idle).of_run run
  have dIdle := (prepared idle).1
  have quiet := prepared.quiet idle
  rw [Op.exec_bind, Op.exec_bind, same, run]
  rcases r with err | (replay | p)
  · exact ⟨fun _ _ no => (nomatch no), quiet, rfl, rfl⟩
  · exact ⟨fun _ _ no => (nomatch no), quiet, rfl, rfl⟩
  · obtain ⟨admitted, -, -⟩ := plans p rfl
    obtain ⟨uncommitted, answer, index, suspended, left⟩ := createScope_dry dIdle p
    have real := createScope_real dIdle admitted taken
    refine ⟨uncommitted, ?_, ?_, answer.trans real.symm⟩
    · change Quiet c ((createScope p true).exec d).2
      rw [left]
      exact ⟨quiet.journal, quiet.attempts, quiet.live⟩
    · change ((createScope p true).exec d).2.store = d.store
      rw [left]

/-- One run answers what the other does, or, if it has no record to make, fails where that does not. -/
structure Decides {α : Type} (fits : Bool) (answer real : Except Error α) : Prop where
  agrees : fits = true → answer = real
  fails : fits = false → answer.toBool = true ∧ real.toBool = false

/-! ## An amendment -/

/-- What an amendment answers after its checks. -/
def amendAnswer (c : Coordinator) (p : AmendPlan) : Except Error AdmissionReport :=
  match c.supersededBy p with
  | .error e => .error e
  | .ok superseded =>
    match ((Op.each suspend superseded).exec c).2.evaluate p.terms p.binding p.policy p.intervals with
    | .error (_, failure) => .ok failure
    | .ok evaluations => .ok ((evaluations.headD {}).addNote p.note)

/-- The scope of an amendment. -/
def amendScope (p : AmendPlan) (dryRun : Bool) : Method (AmendmentResult × Option Timestamp) :=
  withSuspension do
    let superseded ← Op.lift ((← get).supersededBy p)
    Op.each suspend superseded
    let evaluation := (← get).evaluate p.terms p.binding p.policy p.intervals
    decideAmend p dryRun superseded evaluation

section

variable {c e : Coordinator} {p : AmendPlan} {superseded : List ReservationRecord}

/-- What an amendment supersedes leaves the index. -/
theorem suspendEach_run (idle : Idle c) (superseded : List ReservationRecord) :
    ∃ e, (Op.each suspend superseded).exec c = (.ok (), e) ∧ Evaluation c e ∧
      ∀ s ∈ e.suspended, s.kind = .reservation ∧
        ∃ r ∈ superseded, r.id = s.id ∧ r.generation = s.holderGeneration := by
  rcases run : (Op.each suspend superseded).exec c with ⟨r, e⟩
  obtain ⟨rfl, evaluation, out⟩ :=
    (@Evaluation.ensures_suspendEach _ superseded _ (Evaluation.start idle)).of_run run
  refine ⟨e, rfl, evaluation, fun s hs => (out s hs).resolve_left fun before => ?_⟩
  rw [idle.suspended] at before
  exact absurd before List.not_mem_nil

/-- The body of the scope, once what is superseded has left the index. -/
theorem amendScope_body {dryRun : Bool} (chosen : c.supersededBy p = .ok superseded)
    (run : (Op.each suspend superseded).exec c = (.ok (), e)) :
    ((do
        let superseded ← Op.lift ((← get).supersededBy p)
        Op.each suspend superseded
        let evaluation := (← get).evaluate p.terms p.binding p.policy p.intervals
        decideAmend p dryRun superseded evaluation :
          Method (AmendmentResult × Option Timestamp)).exec c) =
      (decideAmend p dryRun superseded
        (e.evaluate p.terms p.binding p.policy p.intervals)).exec e := by
  rw [Op.exec_get_bind, chosen]
  rw [Op.exec_bind_of_ok (exec_lift _ _), Op.exec_bind_of_ok run, Op.exec_get_bind]

/-- The record of an amendment is made unless the amended member has no place. -/
theorem amendMutation_iff (chosen : c.supersededBy p = .ok superseded) :
    (c.amendMutation p superseded).toBool = true ↔ (!p.predecessor.seriesMember ||
      (superseded.findIdx? fun r => r.id = p.predecessor.id).any
        fun i => i < p.intervals.length) = true := by
  unfold supersededBy at chosen
  unfold amendMutation amendSeriesMutation
  cases member : p.predecessor.seriesMember with
  | false => simp [Except.toBool, pure, Except.pure]
  | true =>
    rw [member] at chosen
    simp only [if_true] at chosen ⊢
    cases series : c.seriesOf p.predecessor.series with
    | none =>
      rw [series] at chosen
      cases chosen
    | some s =>
      cases place : superseded.findIdx? fun r => r.id = p.predecessor.id with
      | none => simp [Except.toBool, throw, throwThe, MonadExceptOf.throw]
      | some i =>
        by_cases inside : i < p.intervals.length
        · simp [Except.toBool, pure, Except.pure, inside]
        · simp [Except.toBool, throw, throwThe, MonadExceptOf.throw, inside]

/-- The dry run commits nothing and changes the index alone. -/
theorem amendScope_dry (idle : Idle c) (p : AmendPlan) :
    (∀ result at', ((amendScope p true).exec c).1 ≠ .ok (result, some at')) ∧
      ((amendScope p true).exec c).1.map (fun a => a.1.report.decision) =
        (c.amendAnswer p).map Assessment.decision ∧
      ∃ index suspended, ((amendScope p true).exec c).2 = { c with index, suspended } := by
  unfold amendScope
  rw [withSuspension_result]
  unfold amendAnswer
  cases chosen : c.supersededBy p with
  | error err =>
    have body : ∀ f : List ReservationRecord → Method (AmendmentResult × Option Timestamp),
        ((do let superseded ← Op.lift ((← get).supersededBy p); f superseded :
          Method _).exec c) = (.error err, c) := fun f => by
      rw [Op.exec_get_bind, chosen, Op.exec_bind_of_error (exec_lift _ _)]
    rw [body]
    refine ⟨fun _ _ no => (nomatch no), rfl, withSuspension_evaluated ?_⟩
    rw [body]
    exact Evaluation.start idle
  | ok superseded =>
    obtain ⟨e, run, evaluation, -⟩ := suspendEach_run idle superseded
    have body := @amendScope_body _ _ _ _ true chosen run
    rw [body]
    have ends : ((decideAmend p true superseded
        (e.evaluate p.terms p.binding p.policy p.intervals)).exec e).2 = e := by
      cases e.evaluate p.terms p.binding p.policy p.intervals <;> rfl
    have scope := @withSuspension_evaluated _ (do
      let superseded ← Op.lift ((← get).supersededBy p)
      Op.each suspend superseded
      let evaluation := (← get).evaluate p.terms p.binding p.policy p.intervals
      decideAmend p true superseded evaluation) c (by rw [body, ends]; exact evaluation)
    dsimp only
    rw [run]
    dsimp only
    cases e.evaluate p.terms p.binding p.policy p.intervals with
    | error short => exact ⟨fun _ _ no => (nomatch no), rfl, scope⟩
    | ok evaluations => exact ⟨fun _ _ no => (nomatch no), rfl, scope⟩

/-- The real run decides the same, if the journal takes its record, and fails if it can make none. -/
theorem amendScope_real (idle : Idle c) (admitted : p.Admitted c)
    (taken : (c.amendRecord p).all c.appends = true) :
    Decides ((c.plannedSuperseded p).all fun superseded =>
        !p.predecessor.seriesMember || (superseded.findIdx? fun r => r.id = p.predecessor.id).any
          fun i => i < p.intervals.length)
      ((c.amendAnswer p).map Assessment.decision)
      (((amendScope p false).exec c).1.map fun a => a.1.report.decision) := by
  unfold amendScope
  rw [withSuspension_result]
  unfold amendAnswer plannedSuperseded
  unfold amendRecord at taken
  cases chosen : c.supersededBy p with
  | error err =>
    rw [Op.exec_get_bind, chosen, Op.exec_bind_of_error (exec_lift _ _)]
    exact ⟨fun _ => rfl, fun no => (nomatch no)⟩
  | ok superseded =>
    obtain ⟨e, run, evaluation, out⟩ := suspendEach_run idle superseded
    rw [@amendScope_body _ _ _ _ false chosen run]
    rw [chosen] at taken
    dsimp only at taken ⊢
    rw [run] at taken ⊢
    dsimp only at taken ⊢
    cases closes : e.evaluate p.terms p.binding p.policy p.intervals with
    | error short =>
      rw [closes] at taken
      have taken : e.appends _ = true := (evaluation.appends _).trans (by simpa using taken)
      obtain ⟨sequence, refused⟩ := @refuseAttempt_ok _ (fun sequence =>
        attemptFor p.context p.fingerprint short.2.outcome p.target sequence p.terms.claimant p.now)
        taken
      have finished : Op.Ensures (finishAmend p false superseded (.error short)) e fun r _ =>
          r = .ok { predecessor := p.predecessor, report := short.2 } := by
        unfold finishAmend
        apply Op.ensures_bind
        refine Op.ensures_when (fun _ => ?_) fun no => (nomatch no)
        apply Op.ensures_discard
        rcases ran : (refuseAttempt _).exec e with ⟨err | next, d⟩
        · rw [ran] at refused
          cases refused
        · exact .of_exec ran rfl
      refine ⟨fun _ => ?_, fun no => (nomatch no)⟩
      unfold decideAmend
      rcases ran : (finishAmend p false superseded (.error short)).exec e with ⟨r, d⟩
      obtain rfl := finished.of_run ran
      rw [Op.exec_bind_of_ok ran]
      rfl
    | ok evaluations =>
      rw [closes] at taken
      dsimp only at taken ⊢
      have place := amendMutation_iff chosen
      rw [Option.all_some]
      unfold decideAmend
      simp only [Bool.false_eq_true, if_false]
      rw [Op.exec_get_bind]
      have same : e.amendMutation p superseded = c.amendMutation p superseded := by
        obtain ⟨⟨index, suspended, rfl⟩, -, -, -⟩ := evaluation
        rfl
      rw [same]
      cases made : c.amendMutation p superseded with
      | error err =>
        rw [made] at place
        rw [Op.exec_bind_of_error (exec_lift _ _)]
        exact ⟨fun fits => absurd (place.mpr fits) Bool.false_ne_true, fun _ => ⟨rfl, rfl⟩⟩
      | ok both =>
        obtain ⟨mutation, successors⟩ := both
        rw [made] at place taken
        rw [Op.exec_bind_of_ok (exec_lift _ _)]
        have commits := ensures_commitAmend idle admitted chosen evaluation out closes
          (same.trans made)
        refine ⟨fun _ => ?_, fun no => absurd ((place.mp rfl).symm.trans no) (by decide)⟩
        rcases ran : (commitAmend p superseded successors mutation).exec e with ⟨err | ⟨⟩, d⟩
        · obtain ⟨-, failed⟩ := commits.of_run ran
          rw [evaluation.appends] at failed
          change (Option.all c.appends (some (.reservationAmend mutation))) = true at taken
          rw [Option.all_some, failed] at taken
          cases taken
        · rw [Op.exec_bind_of_ok ran]
          rfl

end

/-- What the two runs of an amendment have to do with one another up to the commit. -/
theorem amendCommit_preview {c : Coordinator} (idle : Idle c) (now : Timestamp)
    (context : RequestContext) (target : ReservationId) (generation : ReservationGeneration)
    (terms : ReservationTerms)
    (taken : c.amendAppends now context target generation terms = true) :
    let dry := (amendCommit now context target generation terms true).exec c
    let real := (amendCommit now context target generation terms false).exec c
    (∀ result at', dry.1 ≠ .ok (result, some at')) ∧ Quiet c dry.2 ∧
      dry.2.store = ((openAmend now context target generation terms).exec c).2.store ∧
      Decides (c.amendFits now context target generation terms)
        (dry.1.map fun a => a.1.report.decision) (real.1.map fun a => a.1.report.decision) := by
  rw [← end_admitAmend now context target generation terms c]
  unfold amendCommit amendFits amendDecision
  dsimp only
  unfold amendAppends at taken
  rcases run : (admitAmend now context target generation terms).exec c with ⟨r, d⟩
  rw [run] at taken
  obtain ⟨prepared, plans⟩ :=
    (ensures_admitAmend now context target generation terms false idle).of_run run
  have dIdle := (prepared idle).1
  have quiet := prepared.quiet idle
  rw [Op.exec_bind, Op.exec_bind, run]
  rcases r with err | (replay | p)
  · exact ⟨fun _ _ no => (nomatch no), quiet, rfl, fun _ => rfl, fun no => (nomatch no)⟩
  · exact ⟨fun _ _ no => (nomatch no), quiet, rfl, fun _ => rfl, fun no => (nomatch no)⟩
  · obtain ⟨admitted, -, -⟩ := plans p rfl
    obtain ⟨-, named, count⟩ := admitAmend_ok idle run
    have id : p.predecessor.id = target := congrArg ReservationKey.id named
    obtain ⟨uncommitted, answer, index, suspended, left⟩ := amendScope_dry dIdle p
    have real := amendScope_real dIdle admitted taken
    rw [← answer, id, count] at real
    refine ⟨uncommitted, ?_, ?_, ?_⟩
    · change Quiet c ((amendScope p true).exec d).2
      rw [left]
      exact ⟨quiet.journal, quiet.attempts, quiet.live⟩
    · change ((amendScope p true).exec d).2.store = d.store
      rw [left]
    · rw [Option.all_map]
      exact real

/-! ## The maintenance behind a commit -/

section

variable {α : Type} {commit : Method (α × Option Timestamp)} {c : Coordinator}

/-- A call that commits nothing answers what its attempt to commit answers. -/
theorem maintain_uncommitted (not : ∀ a at', (commit.exec c).1 ≠ .ok (a, some at')) :
    (commit >>= maintain).exec c = ((commit.exec c).1.map Prod.fst, (commit.exec c).2) := by
  rw [Op.exec_bind]
  rcases run : commit.exec c with ⟨err | ⟨a, _ | now⟩, d⟩
  · rfl
  · rfl
  · rw [run] at not
    exact absurd rfl (not a now)

/-- Where the archival succeeds, the call answers what the commit answers exactly if the compaction
succeeds. -/
theorem maintain_answer {β : Type} (view : α → β) (archived : c.archives commit = true) :
    ((commit >>= maintain).exec c).1.map view = (commit.exec c).1.map (fun a => view a.1) ↔
      c.compacts commit = true := by
  unfold archives at archived
  unfold compacts
  rw [Op.exec_bind]
  rcases run : commit.exec c with ⟨err | ⟨a, _ | now⟩, d⟩
  · exact ⟨fun _ => rfl, fun _ => rfl⟩
  · exact ⟨fun _ => rfl, fun _ => rfl⟩
  · rw [run] at archived
    dsimp only at archived ⊢
    rw [maintain_some]
    unfold settle
    rw [bind_assoc, Op.exec_bind]
    rcases first : (releaseTerminalHistory now).exec d with ⟨err | ⟨⟩, d₁⟩
    · rw [first] at archived
      cases archived
    · dsimp only
      rw [Op.exec_bind]
      rcases compactIfDue.exec d₁ with ⟨err | ⟨⟩, d₂⟩
      · exact ⟨fun no => (nomatch no), fun no => (nomatch no)⟩
      · exact ⟨fun _ => rfl, fun _ => rfl⟩

end

/-- The dry run tells what the real run decides, or fails as it does; after the time reconciliation
it appends nothing, and before that claimants and transitions only; it retains no attempt. -/
structure Previews {α : Type} (c opened : Coordinator) (report : α → AdmissionReport)
    (dry real : Except Error α × Coordinator) : Prop where
  answer : dry.1.map (fun a => (report a).decision) = real.1.map fun a => (report a).decision
  silent : dry.2.store = opened.store
  quiet : Quiet c dry.2

/-- A preview is accepted where the real run is. -/
theorem Previews.answered {α : Type} {c opened : Coordinator} {report : α → AdmissionReport}
    {dry real : Except Error α × Coordinator} (h : Previews c opened report dry real) :
    dry.1.toBool = real.1.toBool := by
  have kept : ∀ x : Except Error α, (x.map fun a => (report a).decision).toBool = x.toBool := by
    intro x
    cases x <;> rfl
  rw [← kept, h.answer, kept]

/-- The runs agree if they do up to the commit and behind it. -/
theorem previews_iff {α : Type} {c opened : Coordinator} {report : α → AdmissionReport}
    {preview commit : Method (α × Option Timestamp)} {fits : Bool}
    (archived : c.archives commit = true)
    (uncommitted : ∀ a at', (preview.exec c).1 ≠ .ok (a, some at'))
    (quiet : Quiet c (preview.exec c).2) (silent : (preview.exec c).2.store = opened.store)
    (decides : Decides fits ((preview.exec c).1.map fun a => (report a.1).decision)
      ((commit.exec c).1.map fun a => (report a.1).decision)) :
    Previews c opened report ((preview >>= maintain).exec c) ((commit >>= maintain).exec c) ↔
      fits = true ∧ c.compacts commit = true := by
  have behind := maintain_answer (fun a => (report a).decision) archived
  have told : ((preview.exec c).1.map Prod.fst).map (fun a => (report a).decision) =
      (preview.exec c).1.map fun a => (report a.1).decision := by
    cases (preview.exec c).1 <;> rfl
  rw [maintain_uncommitted uncommitted]
  constructor
  · rintro ⟨answer, -, -⟩
    rw [told] at answer
    cases fit : fits with
    | true => exact ⟨rfl, behind.mp (answer.symm.trans (decides.agrees fit))⟩
    | false =>
      -- the real run fails before its commit
      obtain ⟨previewed, failed⟩ := decides.fails fit
      rw [answer, Op.exec_bind] at previewed
      rcases run : commit.exec c with ⟨err | a, d⟩
      · rw [run] at previewed
        cases previewed
      · rw [run] at failed
        cases failed
  · rintro ⟨fit, compacted⟩
    refine ⟨?_, silent, quiet⟩
    rw [told]
    exact (decides.agrees fit).trans (behind.mpr compacted).symm

end Coordinator

open Coordinator in
/-- **A dry run predicts the commit**, of a create below the bound of live reservations exactly if the
compaction behind the commit succeeds, and of an amendment exactly if, besides, the amendment fits. -/
theorem dry_run_predicts {as : List Action} {c : Coordinator} (h : System.run as = .up c)
    (faults : List Bool) (now : Timestamp) (context : RequestContext) (terms : ReservationTerms) :
    (∀ (requestedId : ReservationId) (holds : List HoldId),
      c.liveCount < c.config.maxLiveReservations →
      (c.withFaults faults).createAppends now context terms requestedId holds = true →
      (c.withFaults faults).archives (createCommit now context terms requestedId false holds) = true →
      (Previews (c.withFaults faults) ((openCreate now context terms).exec (c.withFaults faults)).2
          CommitResult.report
          ((create now context terms requestedId true holds).exec (c.withFaults faults))
          ((create now context terms requestedId false holds).exec (c.withFaults faults)) ↔
        (c.withFaults faults).compacts
          (createCommit now context terms requestedId false holds) = true)) ∧
    ∀ (target : ReservationId) (generation : ReservationGeneration),
      (c.withFaults faults).amendAppends now context target generation terms = true →
      (c.withFaults faults).archives (amendCommit now context target generation terms false) = true →
      (Previews (c.withFaults faults)
          ((openAmend now context target generation terms).exec (c.withFaults faults)).2
          AmendmentResult.report
          ((amend now context target generation terms true).exec (c.withFaults faults))
          ((amend now context target generation terms false).exec (c.withFaults faults)) ↔
        (c.withFaults faults).amendFits now context target generation terms = true ∧
          (c.withFaults faults).compacts
            (amendCommit now context target generation terms false) = true) := by
  have idle : Idle (c.withFaults faults) :=
    idle_takes (m := .quiet) (System.reachable_idle h).1 ⟨faults, c.stats, rfl⟩
  refine ⟨fun requestedId holds below taken archived => ?_,
    fun target generation taken archived => ?_⟩
  · obtain ⟨uncommitted, quiet, silent, same⟩ :=
      createCommit_preview idle below now context terms requestedId holds taken
    rw [create_eq, create_eq, @previews_iff _ _ _ _ _ _ true archived uncommitted quiet silent
      ⟨fun _ => same, fun no => (nomatch no)⟩]
    simp
  · obtain ⟨uncommitted, quiet, silent, decides⟩ :=
      amendCommit_preview idle now context target generation terms taken
    rw [amend_eq, amend_eq]
    exact previews_iff archived uncommitted quiet silent decides

open Coordinator System.Sample in
/-- A reservation of 60 bits per second is previewed, and an amendment of it. -/
theorem dry_run_predicts_small :
    ∃ d, System.run [opened 0, ingested, created 1 3 20 60 21] = .up d ∧
      let c := d.withFaults []
      (Previews c ((openCreate 4 (context 1 22) (terms 30)).exec c).2 CommitResult.report
          ((create 4 (context 1 22) (terms 30) 23 true []).exec c)
          ((create 4 (context 1 22) (terms 30) 23 false []).exec c) ↔
        c.compacts (createCommit 4 (context 1 22) (terms 30) 23 false []) = true) ∧
      (Previews c ((openAmend 4 (context 1 22) 21 1 (terms 80)).exec c).2 AmendmentResult.report
          ((amend 4 (context 1 22) 21 1 (terms 80) true).exec c)
          ((amend 4 (context 1 22) 21 1 (terms 80) false).exec c) ↔
        c.amendFits 4 (context 1 22) 21 1 (terms 80) = true ∧
          c.compacts (amendCommit 4 (context 1 22) 21 1 (terms 80) false) = true) := by
  obtain ⟨d, up, below, taken, archived, taken', archived'⟩ :
      ∃ d, System.run [opened 0, ingested, created 1 3 20 60 21] = .up d ∧
        d.liveCount < d.config.maxLiveReservations ∧
        (d.withFaults []).createAppends 4 (context 1 22) (terms 30) 23 [] = true ∧
        (d.withFaults []).archives (createCommit 4 (context 1 22) (terms 30) 23 false []) = true ∧
        (d.withFaults []).amendAppends 4 (context 1 22) 21 1 (terms 80) = true ∧
        (d.withFaults []).archives (amendCommit 4 (context 1 22) 21 1 (terms 80) false) = true := by
    refine ⟨_, System.eq_up (by decide +kernel), ?_⟩
    decide +kernel
  exact ⟨d, up, (dry_run_predicts up [] 4 (context 1 22) (terms 30)).1 23 [] below taken archived,
    (dry_run_predicts up [] 4 (context 1 22) (terms 80)).2 21 1 taken' archived'⟩

open Coordinator System.Sample in
/-- The first member of a series expires in the call that amends it: the preview accepts, and the real
run does not find the member in its own series. -/
theorem expired_member_misses_preview :
    ¬ ∀ (as : List Action) (c : Coordinator), System.run as = .up c →
      ∀ (faults : List Bool) (now : Timestamp) (context : RequestContext) (terms : ReservationTerms),
        (∀ (requestedId : ReservationId) (holds : List HoldId),
          c.liveCount < c.config.maxLiveReservations →
          (c.withFaults faults).createAppends now context terms requestedId holds = true →
          (c.withFaults faults).archives
            (createCommit now context terms requestedId false holds) = true →
          Previews (c.withFaults faults)
            ((openCreate now context terms).exec (c.withFaults faults)).2 CommitResult.report
            ((create now context terms requestedId true holds).exec (c.withFaults faults))
            ((create now context terms requestedId false holds).exec (c.withFaults faults))) ∧
        ∀ (target : ReservationId) (generation : ReservationGeneration),
          (c.withFaults faults).amendAppends now context target generation terms = true →
          (c.withFaults faults).archives
            (amendCommit now context target generation terms false) = true →
          Previews (c.withFaults faults)
            ((openAmend now context target generation terms).exec (c.withFaults faults)).2
            AmendmentResult.report
            ((amend now context target generation terms true).exec (c.withFaults faults))
            ((amend now context target generation terms false).exec (c.withFaults faults)) := by
  intro claimed
  obtain ⟨d, up, taken, archived, accepted, refused⟩ :
      ∃ d, System.run [opened 0, ingested, createdSeries 3 10 2] = .up d ∧
        (d.withFaults []).amendAppends 250 (context 1 101) (member 0) 1 (recurrent 10 2) = true ∧
        (d.withFaults []).archives
          (amendCommit 250 (context 1 101) (member 0) 1 (recurrent 10 2) false) = true ∧
        ((amend 250 (context 1 101) (member 0) 1 (recurrent 10 2) true).exec
          (d.withFaults [])).1.toBool = true ∧
        ((amend 250 (context 1 101) (member 0) 1 (recurrent 10 2) false).exec
          (d.withFaults [])).1.toBool = false := by
    refine ⟨_, System.eq_up (by decide +kernel), ?_⟩
    decide +kernel
  have previewed := (claimed _ d up [] 250 (context 1 101) (recurrent 10 2)).2 (member 0) 1 taken
    archived
  exact Bool.false_ne_true (refused.symm.trans (previewed.answered.symm.trans accepted))

end Brf
