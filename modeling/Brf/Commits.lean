import Brf.Housekeeping

/-!
# A commit and the maintenance behind it

`create` and `amend` archive history and compact a grown journal after their commit, in the same
call. `createCommit` and `amendCommit` are the two operations up to that point; the instant they
hand over with an accepted commit is the one of the maintenance that is still to come.

Results: `create_eq` and `amend_eq`.
-/

namespace Brf

open Brf.Lib

namespace Coordinator

/-- What `create_locked` does with an evaluation, up to the commit. -/
def decideCreate (p : CreatePlan) (dryRun : Bool) :
    Except Assessment (List Assessment × List IndexEntry) →
      Method (CommitResult × Option Timestamp)
  | .error failure => do
    let result ← finishCreate p dryRun (.error failure)
    pure (result, none)
  | .ok (evaluations, victims) => do
    let report := acceptedReport p evaluations victims
    if dryRun then pure ({ report, attempt := p.context.attempt }, none)
    else
      let mutation := (← get).createMutation p victims
      let sequence ← commitCreate p mutation
      pure ({ record := mutation.record
              hasSeries := mutation.series.isSome
              series := mutation.series.getD {}
              members := mutation.record :: mutation.members
              report
              attempt := p.context.attempt
              sequence }, some p.now)

/-- `create_locked` up to the commit. -/
def createCommit (now : Timestamp) (context : RequestContext) (terms : ReservationTerms)
    (requestedId : ReservationId) (dryRun : Bool) (consumeHolds : List HoldId) :
    Method (CommitResult × Option Timestamp) := do
  match ← admitCreate now context terms requestedId dryRun consumeHolds with
  | .inl replay => pure (replay, none)
  | .inr p => withSuspension do
    let evaluation ← evaluateCreate p
    decideCreate p dryRun evaluation

/-- What `amend_locked` does with an evaluation, up to the commit. -/
def decideAmend (p : AmendPlan) (dryRun : Bool) (superseded : List ReservationRecord) :
    Except (Interval × Assessment) (List Assessment) →
      Method (AmendmentResult × Option Timestamp)
  | .error failure => do
    let result ← finishAmend p dryRun superseded (.error failure)
    pure (result, none)
  | .ok evaluations => do
    let report := (evaluations.headD {}).addNote p.note
    if dryRun then pure ({ predecessor := p.predecessor, report }, none)
    else
      let (mutation, successors) ← Op.lift ((← get).amendMutation p superseded)
      commitAmend p superseded successors mutation
      let predecessor := ((← get).records[p.target]?).getD p.predecessor
      pure ({ predecessor
              successor := mutation.record
              hasSeries := mutation.series.isSome
              series := mutation.series.getD {}
              members := successors
              report }, some p.now)

/-- `amend_locked` up to the commit. -/
def amendCommit (now : Timestamp) (context : RequestContext) (target : ReservationId)
    (generation : ReservationGeneration) (terms : ReservationTerms) (dryRun : Bool) :
    Method (AmendmentResult × Option Timestamp) := do
  match ← admitAmend now context target generation terms with
  | .inl replay => pure (replay, none)
  | .inr p => withSuspension do
    let superseded ← Op.lift ((← get).supersededBy p)
    Op.each suspend superseded
    let evaluation := (← get).evaluate p.terms p.binding p.policy p.intervals
    decideAmend p dryRun superseded evaluation

/-- The maintenance behind a commit, if there was one. -/
def maintain {α : Type} (answer : α × Option Timestamp) : Method α := do
  match answer.2 with
  | none => pure ()
  | some now => settle now
  pure answer.1

/-! ## The two halves make the whole -/

/-- The suspended entries are the same. -/
def SameSuspension (c d : Coordinator) : Prop := d.suspended = c.suspended

instance : IsPreorder Coordinator SameSuspension where
  refl _ := rfl
  trans _ _ _ h h' := h'.trans h

theorem within_onStore_suspension {α : Type} (m : Store.Method α) :
    Op.Within SameSuspension (onStore m) := fun c => (rfl : SameSuspension c _)

theorem sameSuspension_retire (now : Timestamp) (keys : List ReservationKey) (c : Coordinator) :
    SameSuspension c (keys.foldl (retireRecord now) c) := by
  induction keys generalizing c with
  | nil => exact rfl
  | cons key rest ih =>
    have first : SameSuspension c (retireRecord now c key) := by
      unfold retireRecord
      split <;> rfl
    exact (ih (retireRecord now c key)).trans first

/-- Archival and compaction leave the suspended entries alone. -/
theorem within_settle_suspension (now : Timestamp) : Op.Within SameSuspension (settle now) := by
  unfold settle releaseTerminalHistory compactIfDue compact
  refine Op.within_bind (Op.within_bind Op.within_get fun c => ?_) fun _ => ?_
  · refine Op.within_ite ?_ (Op.within_pure _)
    refine Op.within_bind (Op.within_discard (within_onStore_suspension _)) fun _ => ?_
    exact Op.within_modify fun d => sameSuspension_retire now _ d
  · refine Op.within_bind Op.within_get fun c => ?_
    refine Op.within_ite ?_ (Op.within_pure _)
    refine Op.within_bind Op.within_get fun d => ?_
    exact Op.within_bind (Op.within_discard (within_onStore_suspension _)) fun _ =>
      within_onStore_suspension _

/-- What follows a commit runs outside the suspension as well as inside it. -/
theorem withSuspension_maintain {α : Type} {body : Method α}
    {commit : Method (α × Option Timestamp)}
    (whole : ∀ c, body.exec c = (commit >>= maintain).exec c)
    (kept : ∀ c result at' d, commit.exec c = (.ok (result, some at'), d) → d.suspended = []) :
    withSuspension body = withSuspension commit >>= maintain := by
  funext c
  change (withSuspension body).exec c = (withSuspension commit >>= maintain).exec c
  have run := whole c
  rw [Op.exec_bind] at run ⊢
  rw [exec_withSuspension, exec_withSuspension]
  rcases committed : commit.exec c with ⟨e | ⟨result, _ | at'⟩, d⟩
  · rw [committed] at run
    rw [run]
    dsimp only
    rcases restore.exec d with ⟨_ | _, t⟩ <;> rfl
  · rw [committed] at run
    have done : body.exec c = (.ok result, d) := run
    rw [done]
    dsimp only
    rcases restore.exec d with ⟨_ | _, t⟩ <;> rfl
  · rw [committed] at run
    have nothing := kept c result at' d committed
    have still : (body.exec c).2.suspended = [] := by
      rw [run]
      refine Eq.trans ?_ nothing
      refine (Op.within_bind (R := SameSuspension) (within_settle_suspension at') fun _ => ?_) d
      exact Op.within_pure _
    rw [exec_restore_nothing still, exec_restore_nothing nothing]
    exact run

/-! ## Create and amend -/

theorem commitCreate_kept {p : CreatePlan} {mutation : ReservationMutation} {c d : Coordinator}
    {sequence : DurableSequence} (h : (commitCreate p mutation).exec c = (.ok sequence, d)) :
    d.suspended = [] := by
  unfold commitCreate projectCreate at h
  obtain ⟨_, c₁, -, h⟩ := Op.exec_bind_ok h
  obtain ⟨_, c₂, done, h⟩ := Op.exec_bind_ok h
  obtain ⟨_, c₃, -, done⟩ := Op.exec_bind_ok done
  obtain ⟨_, c₄, -, done⟩ := Op.exec_bind_ok done
  cases h
  cases done
  rfl

theorem commitAmend_kept {p : AmendPlan} {superseded successors : List ReservationRecord}
    {mutation : ReservationMutation} {c d : Coordinator}
    (h : (commitAmend p superseded successors mutation).exec c = (.ok (), d)) :
    d.suspended = [] := by
  unfold commitAmend projectAmend at h
  obtain ⟨_, c₁, -, appending⟩ := Op.exec_bind_ok h
  obtain ⟨_, c₂, -, appending⟩ := Op.exec_bind_ok appending
  obtain ⟨_, c₃, -, done⟩ := Op.exec_bind_ok appending
  obtain ⟨_, c₄, -, done⟩ := Op.exec_bind_ok done
  obtain ⟨_, c₅, -, done⟩ := Op.exec_bind_ok done
  obtain ⟨_, c₆, -, done⟩ := Op.exec_bind_ok done
  cases done
  rfl

theorem maintain_none {α : Type} (a : α) : maintain (a, none) = (pure a : Method α) := rfl

theorem maintain_some {α : Type} (a : α) (now : Timestamp) :
    maintain (a, some now) = (do settle now; pure a : Method α) := rfl

theorem finishCreate_eq (p : CreatePlan) (dryRun : Bool)
    (evaluation : Except Assessment (List Assessment × List IndexEntry)) :
    finishCreate p dryRun evaluation = decideCreate p dryRun evaluation >>= maintain := by
  rcases evaluation with failure | ⟨evaluations, victims⟩
  · unfold decideCreate
    simp only [bind_assoc, pure_bind, maintain_none, bind_pure]
  · unfold finishCreate decideCreate
    cases dryRun with
    | true => rfl
    | false =>
      simp only [Bool.false_eq_true, if_false, bind_assoc, pure_bind, maintain_some]

theorem finishAmend_eq (p : AmendPlan) (dryRun : Bool) (superseded : List ReservationRecord)
    (evaluation : Except (Interval × Assessment) (List Assessment)) :
    finishAmend p dryRun superseded evaluation =
      decideAmend p dryRun superseded evaluation >>= maintain := by
  rcases evaluation with failure | evaluations
  · unfold decideAmend
    simp only [bind_assoc, pure_bind, maintain_none, bind_pure]
  · unfold finishAmend decideAmend
    cases dryRun with
    | true => rfl
    | false =>
      simp only [Bool.false_eq_true, if_false, bind_assoc, pure_bind, maintain_some]

/-- An accepted create has kept what it took out of the index. -/
theorem decideCreate_kept {p : CreatePlan} {dryRun : Bool}
    {evaluation : Except Assessment (List Assessment × List IndexEntry)} {c d : Coordinator}
    {result : CommitResult} {at' : Timestamp}
    (h : (decideCreate p dryRun evaluation).exec c = (.ok (result, some at'), d)) :
    d.suspended = [] := by
  rcases evaluation with failure | ⟨evaluations, victims⟩
  · obtain ⟨_, _, -, done⟩ := Op.exec_bind_ok h
    cases done
  · unfold decideCreate at h
    cases dryRun with
    | true => cases h
    | false =>
      obtain ⟨_, _, -, h⟩ := Op.exec_bind_ok h
      obtain ⟨_, _, committed, done⟩ := Op.exec_bind_ok h
      cases done
      exact commitCreate_kept committed

theorem decideAmend_kept {p : AmendPlan} {dryRun : Bool} {superseded : List ReservationRecord}
    {evaluation : Except (Interval × Assessment) (List Assessment)} {c d : Coordinator}
    {result : AmendmentResult} {at' : Timestamp}
    (h : (decideAmend p dryRun superseded evaluation).exec c = (.ok (result, some at'), d)) :
    d.suspended = [] := by
  rcases evaluation with failure | evaluations
  · obtain ⟨_, _, -, done⟩ := Op.exec_bind_ok h
    cases done
  · unfold decideAmend at h
    cases dryRun with
    | true => cases h
    | false =>
      obtain ⟨_, _, -, h⟩ := Op.exec_bind_ok h
      obtain ⟨_, _, -, h⟩ := Op.exec_bind_ok h
      obtain ⟨_, _, committed, h⟩ := Op.exec_bind_ok h
      obtain ⟨_, _, reading, done⟩ := Op.exec_bind_ok h
      cases reading
      cases done
      exact commitAmend_kept committed

/-- **A create** is its commit and then the maintenance. -/
theorem create_eq (now : Timestamp) (context : RequestContext) (terms : ReservationTerms)
    (requestedId : ReservationId) (dryRun : Bool) (consumeHolds : List HoldId) :
    create now context terms requestedId dryRun consumeHolds =
      createCommit now context terms requestedId dryRun consumeHolds >>= maintain := by
  unfold create createCommit
  rw [bind_assoc]
  refine bind_congr fun admitted => ?_
  rcases admitted with replay | p
  · rfl
  · refine withSuspension_maintain (fun c => ?_) fun c result at' d h => ?_
    · simp only [bind_assoc, finishCreate_eq]
    · obtain ⟨_, _, -, decided⟩ := Op.exec_bind_ok h
      exact decideCreate_kept decided

/-- **An amendment** is its commit and then the maintenance. -/
theorem amend_eq (now : Timestamp) (context : RequestContext) (target : ReservationId)
    (generation : ReservationGeneration) (terms : ReservationTerms) (dryRun : Bool) :
    amend now context target generation terms dryRun =
      amendCommit now context target generation terms dryRun >>= maintain := by
  unfold amend amendCommit
  rw [bind_assoc]
  refine bind_congr fun admitted => ?_
  rcases admitted with replay | p
  · rfl
  · refine withSuspension_maintain (fun c => ?_) fun c result at' d h => ?_
    · simp only [bind_assoc, finishAmend_eq]
    · obtain ⟨_, _, -, h⟩ := Op.exec_bind_ok h
      obtain ⟨_, _, -, h⟩ := Op.exec_bind_ok h
      obtain ⟨_, _, -, h⟩ := Op.exec_bind_ok h
      obtain ⟨_, _, -, decided⟩ := Op.exec_bind_ok h
      exact decideAmend_kept decided

end Coordinator

end Brf
