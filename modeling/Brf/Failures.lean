import Brf.Memory
import Brf.Reachable

/-!
# Requests that fail

What a create, an amendment, a release, a recall, a revocation or a revalidation leaves behind when it
answers with an error, whatever the store calls it makes do.

* `Request.prepare` is what such a request does before it decides: it registers its claimant and
  reconciles time. `WithoutEffect`: the request has left the state it found, or the one its
  preparation has led to, and has neither committed a generation nor retained an attempt.
* Archival and compaction follow a commit in the same call, and what they answer is answered:
  `Settles` says that they go through.
* `Request.Exposed`: the request commits, and then fails.

Result: `failures_without_effect`.
-/

namespace Brf

open Brf.Lib

namespace Coordinator

theorem Unaffected.memory {c d : Coordinator} (h : Unaffected c d) : d.memory = c.memory := by
  obtain ⟨⟨index, faults, stats, rfl⟩, -⟩ := h
  rfl

/-! ## What precedes the decision -/

/-- What is left is the state found, or the one that `prepare` leads to. -/
def Spared (prepare : Method Unit) (c d : Coordinator) : Prop :=
  Unaffected c d ∨ Unaffected (prepare.exec c).2 d

/-- If `m` fails, the state it found is spared. -/
def Spares (prepare : Method Unit) {α : Type} (m : Method α) (c : Coordinator) : Prop :=
  Op.Ensures m c fun r d => ∀ e, r = .error e → Spared prepare c d

namespace Spares

variable {α β : Type} {prepare : Method Unit} {c : Coordinator}

theorem refused {r : Except Error α} : ∀ e, r = .error e → Spared prepare c c :=
  fun _ _ => .inl (.refl c)

theorem pure (a : α) : Spares prepare (Pure.pure a : Method α) c := refused

theorem lift_bind {x : Result β} {f : β → Method α} (h : ∀ b, x = .ok b → Spares prepare (f b) c) :
    Spares prepare (Op.lift x >>= f) c := Op.ensures_lift_bind h fun _ _ => refused

theorem refuseIf_bind {b : Bool} {e : Error} {f : Unit → Method α}
    (h : b = false → Spares prepare (f ()) c) : Spares prepare (Op.refuseIf b e >>= f) c :=
  Op.ensures_refuseIf_bind h fun _ => refused

theorem get_bind {f : Coordinator → Method α} (h : Spares prepare (f c) c) :
    Spares prepare (get >>= f) c := h

theorem ite {q : Prop} [Decidable q] {m n : Method α} (hm : q → Spares prepare m c)
    (hn : ¬ q → Spares prepare n c) : Spares prepare (if q then m else n) c := Op.ensures_ite hm hn

/-- The record an operation names is there. -/
theorem named {id : ReservationId} {generation : ReservationGeneration} {absent : String}
    {f : ReservationRecord → Method α}
    (rest : ∀ r : ReservationRecord, c.records[(⟨id, generation⟩ : ReservationKey)]? = some r →
      Spares prepare (f r) c) : Spares prepare (namedRecord id generation absent >>= f) c := by
  unfold namedRecord findRecord
  rw [bind_assoc]
  apply Op.ensures_get_bind
  cases found : c.records[(⟨id, generation⟩ : ReservationKey)]? with
  | none => exact refused
  | some r => exact rest r found

/-- After the preparation nothing happens unless the operation succeeds. -/
theorem prepared {f : Unit → Method α} (rest : ∀ d, prepare.exec c = (.ok (), d) →
      Op.Ensures (f ()) d fun r d' => ∀ e, r = .error e → Unaffected d d') :
    Spares prepare (prepare >>= f) c := by
  rcases run : prepare.exec c with ⟨e | ⟨⟩, d⟩
  · unfold Spares Op.Ensures Spared
    rw [Op.exec_bind_of_error run, run]
    exact fun _ _ => .inr (.refl d)
  · unfold Spares Op.Ensures Spared
    rw [Op.exec_bind_of_ok run, run]
    exact fun e failed => .inr (rest d run e failed)

/-- What is said of the moves of a failing operation. -/
theorem unaffected {P : Move → Prop} {m : Method α} {d : Coordinator} (idle : Idle d)
    (ends : Ends P Idling m d) :
    Op.Ensures m d fun r d' => ∀ e, r = .error e → Unaffected d d' := by
  refine Op.Ensures.mono ends ?_
  rintro (e | a) d' runs err failed
  · exact Runs.unaffected idle runs
  · cases failed

end Spares

/-- If `exposed`, `m` fails after an append of its own; otherwise it spares the state if it fails. -/
def Fails (exposed : Prop) (prepare : Method Unit) {α : Type} (m : Method α) (c : Coordinator) :
    Prop :=
  Op.Ensures m c fun r d =>
    (exposed → (∃ e, r = .error e) ∧ (prepare.exec c).2.store.lastSequence < d.store.lastSequence) ∧
    (¬ exposed → ∀ e, r = .error e → Spared prepare c d)

section

variable {α : Type} {exposed : Prop} {prepare : Method Unit} {m : Method α} {c : Coordinator}

theorem Fails.discard (h : Fails exposed prepare m c) : Fails exposed prepare (discard m) c := by
  refine Op.ensures_discard (Op.Ensures.mono h ?_)
  rintro (e | a) d ⟨late, spared⟩
  · exact ⟨fun yes => ⟨⟨e, rfl⟩, (late yes).2⟩, fun no _ _ => spared no e rfl⟩
  · refine ⟨fun yes => ?_, fun _ _ no => nomatch no⟩
    obtain ⟨⟨e, no⟩, -⟩ := late yes
    cases no

theorem Spares.fails (h : Spares prepare m c) : Fails False prepare m c :=
  Op.Ensures.mono h fun _ _ spared => ⟨False.elim, fun _ => spared⟩

end

/-- The record that a pointer taken before the preparation shows after it. -/
theorem ensures_reread {P : Move → Prop} {α : Type} {request : Request} {prepare : Method Unit}
    (prepares : Op.Within (Prepared request) prepare) {c d : Coordinator} (idle : Idle c)
    {r : ReservationRecord} (stored : c.records[r.key]? = some r)
    (run : prepare.exec c = (.ok (), d)) {f : ReservationRecord → Method α}
    (rest : ∀ s, d.records[s.key]? = some s → Ends P Idling (f s) d) :
    Op.Ensures (rereadRecord r >>= f) d fun res d' => ∀ e, res = .error e → Unaffected d d' := by
  have prepared : Prepared request c d := (prepares c).of_run run
  obtain ⟨s, shows, -, there⟩ := prepared.reread idle stored
  have spared := Spares.unaffected (prepared idle).1 (rest s there)
  unfold Op.Ensures at spared ⊢
  rw [Op.exec_bind_of_ok shows]
  exact spared

/-! ## Release, recall and revocation -/

/-- The preparation of a release. -/
def prepareRelease (now : Timestamp) (context : RequestContext) : Method Unit := do
  Op.when (!context.claimant.isNil)
    (ensureClaimant context.claimant context.claimantGeneration now)
  reconcile now

/-- The preparation of a create, and of an amendment. -/
def prepareTerms (now : Timestamp) (terms : ReservationTerms) : Method Unit := do
  ensureClaimant terms.claimant terms.claimantGeneration now
  reconcile now

theorem within_prepareRelease (now : Timestamp) (context : RequestContext) (id : ReservationId)
    (generation : ReservationGeneration) :
    Op.Within (Prepared (.release now context id generation)) (prepareRelease now context) := by
  unfold prepareRelease
  refine Op.within_bind (Op.within_when ?_) fun _ => within_reconcile_prepared _ now
  exact within_ensureClaimant_prepared _ rfl

theorem spares_release (now : Timestamp) (context : RequestContext) (id : ReservationId)
    (generation : ReservationGeneration) {c : Coordinator} (idle : Idle c) :
    Spares (prepareRelease now context) (release now context id generation) c := by
  unfold release
  refine .get_bind (.lift_bind fun _ _ => .named fun r found => .refuseIf_bind fun _ => ?_)
  have named := idle.consistent.keyed _ r found
  rw [← bind_assoc]
  refine .prepared fun d run => ?_
  refine ensures_reread (P := fun _ => True) (within_prepareRelease now context id generation) idle
    (named ▸ found) run fun s there => ?_
  refine .ite (fun _ => .pure _) fun _ => .refuseIf_bind fun live => ?_
  refine Ends.then_pure ?_ fun r : ReservationRecord =>
    ({ record := r, transitions := 1 } : LifecycleResult)
  exact ends_transitionFor trivial there live (.inr (.inl rfl)) trivial

theorem spares_recall (now : Timestamp) (context : RequestContext) (id : ReservationId)
    (generation : ReservationGeneration) (effectiveAt : Timestamp) (grace : Duration) (force : Bool)
    {c : Coordinator} (idle : Idle c) :
    Spares (reconcile now) («recall» now context id generation effectiveAt grace force) c := by
  unfold «recall»
  refine .get_bind (.lift_bind fun _ _ => .named fun r found => .get_bind ?_)
  have named := idle.consistent.keyed _ r found
  refine .ite (fun _ => .pure _) fun _ => .prepared fun d run => ?_
  refine ensures_reread (P := fun _ => True) (within_reconcile_prepared .compact now) idle
    (named ▸ found) run fun s there => ?_
  refine .refuseIf_bind fun consuming => .get_bind (.refuseIf_bind fun _ => .lift_bind ?_)
  intro effect effective
  have consumes : s.consumes = true := by simpa using consuming
  refine .ite (fun _ => .pure _) fun _ => .ite (fun _ => ?_) fun later => ?_
  · refine Ends.then_count trivial ?_
      fun r : ReservationRecord => ({ record := r, transitions := 1 } : LifecycleResult)
    exact ends_transitionFor trivial there (live_of_consumes consumes) (.inr (.inr (.inl rfl))) trivial
  · exact ends_pendingRecall trivial there consumes (not_le.mp later) (recallEffect_ok effective)
      trivial

theorem spares_revoke (now : Timestamp) (context : RequestContext) (id : ReservationId)
    (generation : ReservationGeneration) {c : Coordinator} (idle : Idle c) :
    Spares (reconcile now) (revoke now context id generation) c := by
  unfold revoke
  refine .get_bind (.lift_bind fun _ _ => .named fun r found => ?_)
  have named := idle.consistent.keyed _ r found
  refine .prepared fun d run => ?_
  refine ensures_reread (P := fun _ => True) (within_reconcile_prepared .compact now) idle
    (named ▸ found) run fun s there => ?_
  refine .get_bind (.ite (fun _ => .pure _) fun _ => .ite (fun _ => .pure _) fun _ => ?_)
  refine .refuseIf_bind fun consuming => ?_
  have consumes : s.consumes = true := by simpa using consuming
  refine Ends.then_count trivial ?_
    fun r : ReservationRecord => ({ record := r, transitions := 1 } : LifecycleResult)
  exact ends_transitionFor trivial there (live_of_consumes consumes) (.inr (.inr (.inl rfl))) trivial

/-! ## The commits of create and amend -/

/-- The checks of an operation leave the state alone but for its preparation, which a plan rests on. -/
def Opens (prepare : Method Unit) {ρ π : Type} (m : Method (ρ ⊕ π)) (c : Coordinator) : Prop :=
  Op.Ensures m c fun r d => (d = c ∨ d = (prepare.exec c).2) ∧
    ∀ p, r = .ok (.inr p) → prepare.exec c = (.ok (), d)

section

variable {prepare : Method Unit} {ρ π : Type} {c : Coordinator}

theorem Opens.refused {e : Error} : (c = c ∨ c = (prepare.exec c).2) ∧
    ∀ p, (.error e : Except Error (ρ ⊕ π)) = .ok (.inr p) → prepare.exec c = (.ok (), c) :=
  ⟨.inl rfl, fun _ no => nomatch no⟩

theorem Opens.prepared (prepare : Method Unit) {rest : Method (ρ ⊕ π)}
    (still : Op.Within Eq rest) :
    Opens prepare (prepare >>= fun _ => rest) c := by
  rcases run : prepare.exec c with ⟨e | ⟨⟩, d⟩
  · unfold Opens Op.Ensures
    rw [Op.exec_bind_of_error run, run]
    exact ⟨.inr rfl, fun _ no => nomatch no⟩
  · have same : d = (rest.exec d).2 := still d
    unfold Opens Op.Ensures
    rw [Op.exec_bind_of_ok run, run, ← same]
    exact ⟨.inr rfl, fun _ _ => rfl⟩

/-- What follows the checks of an operation spares the state, if its replay and its plan do. -/
theorem Spares.opened {α : Type} {m : Method (ρ ⊕ π)} {f : ρ ⊕ π → Method α}
    (opens : Opens prepare m c) (replays : ∀ r, ∃ a, f (.inl r) = Pure.pure a)
    (plans : ∀ p d, m.exec c = (.ok (.inr p), d) →
      Op.Ensures (f (.inr p)) d fun res d' => ∀ e, res = .error e → Unaffected d d') :
    Spares prepare (m >>= f) c := by
  rcases run : m.exec c with ⟨r, d⟩
  obtain ⟨place, -⟩ := opens.of_run run
  have left : ∀ {d'}, Unaffected d d' → Spared prepare c d' := by
    intro d' same
    rcases place with rfl | rfl
    · exact .inl same
    · exact .inr same
  refine Op.ensures_bind (.of_exec run ?_)
  rcases r with e | replay | p
  · exact fun _ _ => left (.refl d)
  · obtain ⟨a, same⟩ := replays replay
    dsimp only
    rw [same]
    exact fun _ no => nomatch no
  · exact (plans p d run).mono fun _ _ spared e failed => left (spared e failed)

end

theorem opens_admitCreate (now : Timestamp) (context : RequestContext) (terms : ReservationTerms)
    (requestedId : ReservationId) (dryRun : Bool) (holds : List HoldId) (c : Coordinator) :
    Opens (prepareTerms now terms) (admitCreate now context terms requestedId dryRun holds) c := by
  unfold admitCreate
  refine Op.ensures_get_bind (Op.ensures_lift_bind (fun _ _ => ?_) fun _ _ => Opens.refused)
  refine Op.ensures_lift_bind (fun _ _ => ?_) fun _ _ => Opens.refused
  refine Op.ensures_refuseIf_bind (fun _ => ?_) fun _ => Opens.refused
  rw [← bind_assoc]
  refine Opens.prepared (prepareTerms now terms) ?_
  refine Op.within_bind Op.within_get fun d => ?_
  dsimp only
  refine Op.within_bind (Op.within_lift _) fun _ => ?_
  split
  · exact Op.within_bind (Op.within_refuseIf _ _) fun _ => Op.within_pure _
  · refine Op.within_bind (Op.within_refuseIf _ _) fun _ => ?_
    refine Op.within_bind (Op.within_refuseIf _ _) fun _ => ?_
    refine Op.within_bind (Op.within_refuseIf _ _) fun _ => ?_
    refine Op.within_bind (Op.within_lift _) fun _ => ?_
    exact Op.within_bind (Op.within_lift _) fun _ => Op.within_pure _

theorem opens_admitAmend (now : Timestamp) (context : RequestContext) (target : ReservationId)
    (generation : ReservationGeneration) (terms : ReservationTerms) (c : Coordinator) :
    Opens (prepareTerms now terms) (admitAmend now context target generation terms) c := by
  unfold admitAmend
  refine Op.ensures_get_bind (Op.ensures_lift_bind (fun _ _ => ?_) fun _ _ => Opens.refused)
  refine Op.ensures_lift_bind (fun _ _ => Op.ensures_get_bind ?_) fun _ _ => Opens.refused
  split
  · exact Opens.refused
  dsimp only
  split
  · refine Op.ensures_refuseIf_bind (fun _ => ?_) fun _ => Opens.refused
    exact ⟨.inl rfl, fun _ no => nomatch no⟩
  refine Op.ensures_refuseIf_bind (fun _ => ?_) fun _ => Opens.refused
  refine Op.ensures_refuseIf_bind (fun _ => ?_) fun _ => Opens.refused
  refine Op.ensures_refuseIf_bind (fun _ => ?_) fun _ => Opens.refused
  rw [← bind_assoc]
  refine Opens.prepared (prepareTerms now terms) ?_
  refine Op.within_bind Op.within_get fun d => ?_
  refine Op.within_bind (Op.within_lift _) fun _ => ?_
  exact Op.within_bind (Op.within_lift _) fun _ => Op.within_pure _

theorem spares_createCommit (now : Timestamp) (context : RequestContext) (terms : ReservationTerms)
    (requestedId : ReservationId) (dryRun : Bool) (holds : List HoldId) {c : Coordinator}
    (idle : Idle c) : Spares (prepareTerms now terms)
      (createCommit now context terms requestedId dryRun holds) c := by
  unfold createCommit
  refine .opened (opens_admitCreate now context terms requestedId dryRun holds c)
    (fun _ => ⟨_, rfl⟩) fun p d run => ?_
  obtain ⟨prepared, plans⟩ :=
    (ensures_admitCreate now context terms requestedId dryRun holds idle).of_run run
  obtain ⟨admitted, plan, attempted⟩ := plans p rfl
  have ends := ends_evaluatedCreate (Q := Idling) trivial trivial (c := c) admitted
    (fun real => plan.refuses real attempted) fun real _ => ⟨.inr (plan.commits real attempted), run⟩
  exact Spares.unaffected (prepared idle).1 (ends.ends (R := fun _ => True) fun _ _ _ => trivial)

theorem spares_amendCommit (now : Timestamp) (context : RequestContext) (target : ReservationId)
    (generation : ReservationGeneration) (terms : ReservationTerms) (dryRun : Bool)
    {c : Coordinator} (idle : Idle c) : Spares (prepareTerms now terms)
      (amendCommit now context target generation terms dryRun) c := by
  unfold amendCommit
  refine .opened (opens_admitAmend now context target generation terms c) (fun _ => ⟨_, rfl⟩)
    fun p d run => ?_
  obtain ⟨prepared, plans⟩ :=
    (ensures_admitAmend now context target generation terms dryRun idle).of_run run
  obtain ⟨admitted, plan, attempted⟩ := plans p rfl
  have refuses := fun (real : dryRun = false) outcome => plan.refuses real attempted outcome
  have ends := ends_evaluatedAmend (Q := Idling) trivial trivial (c := c) admitted refuses
    fun real _ _ _ => ⟨.inr (plan.commits real attempted), run⟩
  exact Spares.unaffected (prepared idle).1 (ends.ends (R := fun _ => True) fun _ _ _ => trivial)

/-- What a create hands over to the maintenance is committed. -/
theorem takes_createCommit {now : Timestamp} {context : RequestContext} {terms : ReservationTerms}
    {requestedId : ReservationId} {dryRun : Bool} {holds : List HoldId} {c d : Coordinator}
    (idle : Idle c) {answer : CommitResult} {at' : Timestamp}
    (run : (createCommit now context terms requestedId dryRun holds).exec c =
      (.ok (answer, some at'), d)) :
    ∃ p victims e, (admitCreate now context terms requestedId dryRun holds).exec c =
      (.ok (.inr p), e) ∧ Idle e ∧ (Move.create p victims).Takes e d := by
  unfold createCommit at run
  obtain ⟨admission, e, admits, run⟩ := Op.exec_bind_ok run
  obtain ⟨prepared, plans⟩ :=
    (ensures_admitCreate now context terms requestedId dryRun holds idle).of_run admits
  rcases admission with replay | p
  · cases run
  obtain ⟨admitted, -, -⟩ := plans p rfl
  have eIdle := (prepared idle).1
  refine ⟨p, ?_⟩
  dsimp only at run
  rw [exec_withSuspension] at run
  rcases inside : (evaluateCreate p >>= decideCreate p dryRun).exec e with ⟨r, e'⟩
  rw [inside] at run
  rcases back : restore.exec e' with ⟨_ | ⟨⟩, e''⟩
  · rw [back] at run
    cases run
  rw [back] at run
  cases run
  obtain ⟨evaluation, f, evaluates, decides⟩ := Op.exec_bind_ok inside
  have evaluated := (ensures_evaluateCreate eIdle).of_run evaluates
  have kept := decideCreate_kept decides
  rcases evaluation with failure | ⟨evaluations, victims⟩
  · obtain ⟨_, _, -, done⟩ := Op.exec_bind_ok decides
    cases done
  unfold decideCreate at decides
  cases dryRun with
  | true => cases decides
  | false =>
    obtain ⟨_, _, reading, decides⟩ := Op.exec_bind_ok decides
    cases reading
    obtain ⟨_, _, commits, done⟩ := Op.exec_bind_ok decides
    cases done
    rw [exec_restore_nothing kept] at back
    cases back
    obtain ⟨planned, live, closes⟩ := evaluated
    exact ⟨victims, e, admits, eIdle, (ensures_commitCreate eIdle admitted planned live
      closes).of_run commits⟩

/-- What an amendment hands over to the maintenance is committed. -/
theorem takes_amendCommit {now : Timestamp} {context : RequestContext} {target : ReservationId}
    {generation : ReservationGeneration} {terms : ReservationTerms} {dryRun : Bool}
    {c d : Coordinator} (idle : Idle c) {answer : AmendmentResult} {at' : Timestamp}
    (run : (amendCommit now context target generation terms dryRun).exec c =
      (.ok (answer, some at'), d)) :
    ∃ p superseded successors mutation e,
      (admitAmend now context target generation terms).exec c = (.ok (.inr p), e) ∧ Idle e ∧
        (Move.amend p superseded successors mutation).Takes e d := by
  unfold amendCommit at run
  obtain ⟨admission, e, admits, run⟩ := Op.exec_bind_ok run
  obtain ⟨prepared, plans⟩ :=
    (ensures_admitAmend now context target generation terms dryRun idle).of_run admits
  rcases admission with replay | p
  · cases run
  obtain ⟨admitted, -, -⟩ := plans p rfl
  have eIdle := (prepared idle).1
  refine ⟨p, ?_⟩
  dsimp only at run
  rw [exec_withSuspension, Op.exec_get_bind] at run
  rcases inside : (Op.lift (e.supersededBy p) >>= fun superseded => do
      Op.each suspend superseded
      let evaluation := (← get).evaluate p.terms p.binding p.policy p.intervals
      decideAmend p dryRun superseded evaluation).exec e with ⟨r, e'⟩
  rw [inside] at run
  rcases back : restore.exec e' with ⟨_ | ⟨⟩, e''⟩
  · rw [back] at run
    cases run
  rw [back] at run
  cases run
  obtain ⟨superseded, chosen, inside⟩ := Op.exec_lift_bind_ok inside
  obtain ⟨_, f, suspends, inside⟩ := Op.exec_bind_ok inside
  obtain ⟨-, evaluation, out⟩ := (Evaluation.start eIdle).ensures_suspendEach.of_run suspends
  obtain ⟨_, _, reading, decides⟩ := Op.exec_bind_ok inside
  cases reading
  have kept := decideAmend_kept decides
  cases closes : f.evaluate p.terms p.binding p.policy p.intervals with
  | error short =>
    rw [closes] at decides
    obtain ⟨_, _, -, done⟩ := Op.exec_bind_ok decides
    cases done
  | ok evaluations =>
    rw [closes] at decides
    unfold decideAmend at decides
    cases dryRun with
    | true => cases decides
    | false =>
      obtain ⟨_, _, reading, decides⟩ := Op.exec_bind_ok decides
      cases reading
      obtain ⟨⟨mutation, successors⟩, made, decides⟩ := Op.exec_lift_bind_ok decides
      obtain ⟨_, _, commits, decides⟩ := Op.exec_bind_ok decides
      obtain ⟨_, _, reading, done⟩ := Op.exec_bind_ok decides
      cases reading
      cases done
      rw [exec_restore_nothing kept] at back
      cases back
      refine ⟨superseded, successors, mutation, e, admits, eIdle, (ensures_commitAmend eIdle admitted
        chosen evaluation (fun s hs => (out s hs).resolve_left fun before => ?_) closes made).of_run
          commits⟩
      rw [eIdle.suspended] at before
      exact absurd before List.not_mem_nil

/-! ## The maintenance behind a commit -/

/-- What archival makes durable. -/
def retirement (now : Timestamp) (c : Coordinator) : DurableRecord :=
  .retire
    { ids := c.retireBatch.map ReservationKey.id
      generations := c.retireBatch.map ReservationKey.generation
      at' := now }

/-- The calls of a rotation: an open journal is synced, and the journal is made again. -/
def rotationCalls (s : Store) : Nat := if s.journalOpen then 2 else 1

/-- A compaction goes through: the snapshot is written, and then the journal is rotated. -/
def Compacts (c : Coordinator) : Prop :=
  (encode c.snapshotState).length ≤ maxSnapshotPayload ∧
    (c.store.faults.take (1 + rotationCalls c.store)).all not = true

/-- Archival goes through, and so does the compaction of the journal it leaves, if one is due. -/
structure Settles (now : Timestamp) (c : Coordinator) : Prop where
  archives : c.retireBatch ≠ [] → c.appends (c.retirement now) = true
  compacts : ((releaseTerminalHistory now).exec c).2.store.shouldCompact = true →
    Compacts ((releaseTerminalHistory now).exec c).2

theorem exec_sync (s : Store) : Store.sync.exec s =
    (if (s.faults.take 1).all not then .ok ()
      else .error (makeError .io "failed to flush durable state to stable storage"),
      { s with faults := s.faults.drop 1 }) := by
  rcases s with ⟨disk, journalOpen, lastSequence, snapshotSequence, journalBytes, _ | ⟨fault, rest⟩⟩
  · rfl
  · cases fault <;> rfl

theorem exec_takeFault (s : Store) : Store.takeFault.exec s =
    (.ok (!(s.faults.take 1).all not), { s with faults := s.faults.drop 1 }) := by
  rcases s with ⟨disk, journalOpen, lastSequence, snapshotSequence, journalBytes, _ | ⟨fault, rest⟩⟩
  · rfl
  · cases fault <;> rfl

theorem exec_writeSnapshot (payload : Text) (s : Store) :
    ((Store.writeSnapshot payload).exec s) =
      if maxSnapshotPayload < payload.length then
        (.error (makeError .resourceExhausted "snapshot exceeds the payload bound"), s)
      else if (s.faults.take 1).all not then
        (.ok s.lastSequence, s.withSnapshot payload (s.faults.drop 1))
      else (.error (makeError .io "failed to flush durable state to stable storage"),
        { s with faults := s.faults.drop 1 }) := by
  unfold Store.writeSnapshot
  rw [Op.exec_bind, Op.exec_refuseIf]
  by_cases large : maxSnapshotPayload < payload.length
  · rw [decide_eq_true large, if_pos large]
    rfl
  · rw [decide_eq_false large, if_neg large, if_neg (by simp)]
    dsimp only
    rw [Op.exec_bind, exec_sync]
    cases (s.faults.take 1).all not with
    | false => rfl
    | true => rfl

/-- The removal of the journal, and its creation. -/
theorem remakeJournal_ok (s : Store) : (Op.exec (do
      modify fun s : Store => { s with disk := { s.disk with journal := [] }, journalOpen := false }
      Op.refuseIf (← Store.takeFault)
        (makeError .io "failed to recreate the journal after rotation")
      modify fun s => { s with journalOpen := true, journalBytes := 0 } : Store.Method Unit) s).1 =
        .ok () ↔ (s.faults.take 1).all not = true := by
  rw [Op.exec_modify_bind, Op.exec_bind, exec_takeFault]
  dsimp only
  rw [Op.exec_bind, Op.exec_refuseIf]
  cases (s.faults.take 1).all not with
  | false => simp
  | true => exact ⟨fun _ => rfl, fun _ => rfl⟩

theorem rotateJournal_ok (s : Store) : (Store.rotateJournal.exec s).1 = .ok () ↔
    (s.faults.take (rotationCalls s)).all not = true := by
  unfold Store.rotateJournal rotationCalls
  rw [Op.exec_get_bind]
  cases s.journalOpen with
  | false => exact remakeJournal_ok s
  | true =>
    simp only [if_true]
    rw [Op.exec_bind, exec_sync, List.take_add (i := 1) (j := 1), List.all_append]
    cases (s.faults.take 1).all not with
    | false => simp
    | true => exact remakeJournal_ok { s with faults := s.faults.drop 1 }

/-- A compaction succeeds exactly if every store call it makes does. -/
theorem compact_ok (c : Coordinator) : (compact.exec c).1 = .ok () ↔ c.Compacts := by
  unfold compact Compacts onStore
  rw [Op.exec_get_bind, Op.exec_bind, Op.exec_discard, Op.exec_zoom, exec_writeSnapshot]
  by_cases large : maxSnapshotPayload < (encode c.snapshotState).length
  · rw [if_pos large]
    simp [not_le.mpr large]
  rw [if_neg large]
  rw [List.take_add, List.all_append]
  cases (c.store.faults.take 1).all not with
  | false => simp
  | true =>
    have rest := rotateJournal_ok (c.store.withSnapshot (encode c.snapshotState)
      (c.store.faults.drop 1))
    rw [and_iff_right (not_lt.mp large), Bool.true_and]
    exact rest

theorem compactIfDue_ok (c : Coordinator) :
    (compactIfDue.exec c).1 = .ok () ↔ (c.store.shouldCompact = true → c.Compacts) := by
  unfold compactIfDue
  rw [Op.exec_get_bind, Op.exec_ite]
  cases c.store.shouldCompact with
  | false => simp
  | true => simp [compact_ok]

theorem releaseTerminalHistory_ok (now : Timestamp) (c : Coordinator) :
    ((releaseTerminalHistory now).exec c).1 = .ok () ↔
      (c.retireBatch ≠ [] → c.appends (c.retirement now) = true) := by
  change Op.Ensures (releaseTerminalHistory now) c fun r _ => r = .ok () ↔ _
  unfold releaseTerminalHistory appends
  apply Op.ensures_get_bind
  refine Op.ensures_ite (fun due => ?_) fun none => ?_
  · apply Op.ensures_bind
    apply Op.ensures_discard
    change Op.Ensures (append (c.retirement now)) c _
    rcases run : (append (c.retirement now)).exec c with ⟨e | sequence, d⟩
    · exact .of_exec run (by simp [due, Except.toBool])
    · exact .of_exec run (by simp [Op.Ensures, Except.toBool])
  · exact iff_of_true rfl fun due => absurd due none

/-- **The maintenance succeeds** exactly if archival goes through, and a compaction that is due. -/
theorem settle_ok (now : Timestamp) (c : Coordinator) :
    ((settle now).exec c).1 = .ok () ↔ c.Settles now := by
  have archives := releaseTerminalHistory_ok now c
  unfold settle
  rcases run : (releaseTerminalHistory now).exec c with ⟨e | ⟨⟩, d⟩
  · rw [run] at archives
    rw [Op.exec_bind_of_error run]
    exact iff_of_false (by simp) fun settles => nomatch archives.mpr settles.archives
  · rw [run] at archives
    rw [Op.exec_bind_of_ok run, compactIfDue_ok]
    constructor
    · intro due
      refine ⟨archives.mp rfl, ?_⟩
      rw [run]
      exact due
    · intro settles
      have due := settles.compacts
      rw [run] at due
      exact due

/-- A commit with its maintenance fails after the commit exactly if the maintenance does. -/
theorem fails_maintain {α : Type} {commit : Method (α × Option Timestamp)}
    {prepare : Method Unit} {c : Coordinator} (spares : Spares prepare commit c)
    (later : ∀ answer at' d, commit.exec c = (.ok (answer, some at'), d) →
      ∃ e m, prepare.exec c = (.ok (), e) ∧ Idle e ∧ Move.Takes m e d ∧ m.logs e ≠ []) :
    Fails (∃ answer at' d, commit.exec c = (.ok (answer, some at'), d) ∧ ¬ d.Settles at') prepare
      (commit >>= maintain) c := by
  rcases run : commit.exec c with ⟨e | ⟨answer, _ | at'⟩, d⟩
  · unfold Fails Op.Ensures
    rw [Op.exec_bind_of_error run]
    exact ⟨fun ⟨_, _, _, no, _⟩ => (nomatch no), fun _ _ _ => Op.Ensures.of_run spares run e rfl⟩
  · unfold Fails Op.Ensures
    rw [Op.exec_bind_of_ok run]
    exact ⟨fun ⟨_, _, _, no, _⟩ => (nomatch no), fun _ _ no => nomatch no⟩
  · obtain ⟨e, m, prepared, idle, takes, logs⟩ := later answer at' d run
    have before : (prepare.exec c).2.store.lastSequence < d.store.lastSequence := by
      have next := (sequence_takes idle takes).2 logs
      rw [prepared]
      change e.store.lastSequence < d.store.lastSequence
      exact Fin.lt_def.mpr (by omega)
    have settles := settle_ok at' d
    have runs := within_settle (P := Settling) (fun _ h => h) at' d
    unfold Fails Op.Ensures
    rw [Op.exec_bind_of_ok run, maintain_some]
    rcases rest : (settle at').exec d with ⟨e | ⟨⟩, d'⟩
    · rw [rest] at settles
      rw [Op.exec_bind_of_error rest]
      have broken : ¬ d.Settles at' := fun h => nomatch settles.mpr h
      exact ⟨fun _ => ⟨⟨e, rfl⟩, before.trans_le ((runs.of_run rest).sequence (idle_takes idle takes))⟩,
        fun no => absurd ⟨answer, at', d, rfl, broken⟩ no⟩
    · rw [rest] at settles
      rw [Op.exec_bind_of_ok rest]
      refine ⟨fun ⟨_, _, _, same, broken⟩ => ?_, fun _ _ no => nomatch no⟩
      cases same
      exact absurd (settles.mp rfl) broken

/-! ## Revalidation -/

/-- A later generation, which is not in force, stays the current one when a successor of the record is
registered. -/
def Outranked (c : Coordinator) (r : ReservationRecord) : Prop :=
  ∃ g, c.currentGeneration[r.id]? = some g ∧ r.generation + 1 < g ∧
    ∀ latest, c.records[(⟨r.id, g⟩ : ReservationKey)]? = some latest →
      latest.applicability ≠ .current

/-- The generation in force under an identity. -/
def inForce (c : Coordinator) (id : ReservationId) : Option ReservationRecord :=
  (c.currentRecord id).filter fun latest => latest.applicability = .current

theorem inForce_none {c : Coordinator} {id : ReservationId} : c.inForce id = none ↔
    ∀ g, c.currentGeneration[id]? = some g → ∀ latest,
      c.records[(⟨id, g⟩ : ReservationKey)]? = some latest → latest.applicability ≠ .current := by
  unfold inForce currentRecord
  cases c.currentGeneration[id]? with
  | none => simp
  | some g => cases c.records[(⟨id, g⟩ : ReservationKey)]? <;> simp

/-- After a revalidation no generation is in force exactly if its successor is outranked. -/
theorem inForce_revalidated {c c' : Coordinator} (idle : Idle c) {r : ReservationRecord}
    (outdated : r.applicability ≠ .current) {binding : ResolvedBinding} {now : Timestamp}
    {context : RequestContext} (takes : (Move.revalidate r binding now context).Takes c c') :
    c'.inForce r.id = none ↔ c.Outranked r := by
  have stored := takes.2.1
  have key := revalidatedSuccessor_key c r binding now context
  have current : c'.currentGeneration[r.id]? = if ∀ g ∈ c.currentGeneration[r.id]?,
      g < r.generation + 1 then some (r.generation + 1) else c.currentGeneration[r.id]? := by
    have same := congrFun (congrArg Memory.current (memory_takes idle takes)) r.id
    refine same.trans ?_
    change (if r.id = r.id ∧ _ then _ else _) = _
    simp only [true_and]
    rfl
  obtain ⟨at', by', provenance, records⟩ := succeededOn_takes idle takes
  have here : c'.records[(⟨r.id, r.generation + 1⟩ : ReservationKey)]? =
      some (c.revalidatedSuccessor r binding at' by') := by
    rw [records]
    exact (Map.get_insert _ _ _ _).trans (if_pos rfl)
  rw [inForce_none]
  by_cases above : ∃ g, c.currentGeneration[r.id]? = some g ∧ r.generation + 1 < g
  · obtain ⟨g, known, later⟩ := above
    rw [known, if_neg fun all => absurd (all g rfl) (not_lt.mpr later.le)] at current
    have outranked : c.Outranked r ↔ ∀ latest,
        c.records[(⟨r.id, g⟩ : ReservationKey)]? = some latest → latest.applicability ≠ .current := by
      refine ⟨fun ⟨g', known', _, out⟩ => ?_, fun out => ⟨g, known, later, out⟩⟩
      obtain rfl := Option.some.inj (known.symm.trans known')
      exact out
    have now_current : (∀ g', c'.currentGeneration[r.id]? = some g' → ∀ latest,
        c'.records[(⟨r.id, g'⟩ : ReservationKey)]? = some latest → latest.applicability ≠ .current) ↔
        ∀ latest, c'.records[(⟨r.id, g⟩ : ReservationKey)]? = some latest →
          latest.applicability ≠ .current := by
      refine ⟨fun out => out g current, fun out g' known' => ?_⟩
      obtain rfl := Option.some.inj (current.symm.trans known')
      exact out
    have other : (⟨r.id, g⟩ : ReservationKey) ≠ (c.revalidatedSuccessor r binding at' by').key :=
      fun same => later.ne (congrArg ReservationKey.generation same).symm
    rw [outranked, now_current, records, Map.get_insert_ne other, Map.get_insert]
    by_cases own : (⟨r.id, g⟩ : ReservationKey) = r.key
    · rw [if_pos own, own, stored]
      refine iff_of_true ?_ ?_
      · rintro _ ⟨⟩
        exact outdated
      · rintro _ ⟨⟩
        exact outdated
    · rw [if_neg own]
  · refine iff_of_false (fun out => ?_) fun ⟨g, known, later, _⟩ => above ⟨g, known, later⟩
    have succeeds : c'.currentGeneration[r.id]? = some (r.generation + 1) := by
      rw [current]
      split
      · rfl
      · rename_i some_later
        push Not at some_later
        obtain ⟨g, known, not_before⟩ := some_later
        rw [known]
        exact congrArg some (le_antisymm (not_lt.mp fun later => above ⟨g, known, later⟩) not_before)
    exact out _ succeeds _ here rfl

/-- A revalidation commits a successor, and does not find it in force. -/
structure Overshadows (now : Timestamp) (context : RequestContext) (markStale : Bool)
    (r : ReservationRecord) (c : Coordinator) : Prop where
  anew : markStale = false
  live : isTerminal r.state = false
  outdated : r.applicability ≠ .current
  commits : ∃ binding, c.revalidates r = some binding ∧
    c.appends (c.revalidation r binding now context) = true
  outranked : c.Outranked r

theorem unaffected_markApplicability {c : Coordinator} (idle : Idle c) {r : ReservationRecord}
    (stored : c.records[r.key]? = some r) (applicability : Applicability)
    (reason : ApplicabilityReason) (now : Timestamp) :
    Op.Ensures (markApplicability r applicability reason now) c fun res d =>
      ∀ e, res = .error e → Unaffected c d := by
  unfold markApplicability
  refine Op.ensures_ite (fun _ _ no => nomatch no) fun _ => ?_
  apply Op.ensures_bind
  refine (ensures_appendRecord _ c).mono ?_
  rintro (e | sequence) c₁ spec
  · exact fun _ _ => (FaultsOnly.runs (P := Idling) trivial spec).unaffected idle
  · obtain ⟨rfl, appended⟩ := spec
    refine (ensures_applyMark (idle.appended appended).consistent.index
      (idle.consistent.sound _ _ stored) applicability reason now _).mono ?_
    rintro _ d ⟨rfl, -⟩ e no
    cases no

/-- How a revalidation fails. -/
theorem ensures_decideRevalidation_failing {c : Coordinator} (idle : Idle c) {now : Timestamp}
    {context : RequestContext} {id : ReservationId} {generation : ReservationGeneration}
    {markStale : Bool} {r : ReservationRecord} (named : r.key = ⟨id, generation⟩)
    (stored : c.records[r.key]? = some r) :
    Op.Ensures (decideRevalidation now context id generation markStale r) c fun res d =>
      (c.Overshadows now context markStale r →
        (∃ e, res = .error e) ∧ c.store.lastSequence < d.store.lastSequence) ∧
      (¬ c.Overshadows now context markStale r → ∀ e, res = .error e → Unaffected c d) := by
  have identity : r.id = id := congrArg ReservationKey.id named
  unfold decideRevalidation
  refine Op.ensures_refuseIf_bind (fun live => ?_) fun terminal => ⟨fun no => ?_, fun _ _ _ => .refl c⟩
  swap
  · exact absurd terminal (by simp [no.live])
  refine Op.ensures_ite (fun current => ⟨fun no => absurd current no.outdated,
    fun _ _ no => nomatch no⟩) fun outdated => ?_
  refine Op.ensures_ite (fun marks => ?_) fun anew => ?_
  · apply Op.ensures_bind
    refine (unaffected_markApplicability idle stored .stale r.applicabilityReason now).mono ?_
    rintro (e | s) d spared
    · exact ⟨fun no => absurd no.anew (by simp [marks]), fun _ _ _ => spared e rfl⟩
    · exact ⟨fun no => absurd no.anew (by simp [marks]), fun _ _ no => nomatch no⟩
  · apply Op.ensures_bind
    refine (ensures_autoRevalidate idle stored live now context).mono ?_
    intro result d ends
    cases commits : c.revalidates r with
    | none =>
      rw [commits] at ends
      obtain ⟨rfl, runs⟩ := ends
      have spared := runs.unaffected idle
      apply Op.ensures_get_bind
      split
      · exact ⟨fun no => absurd no.commits (by simp [commits]), fun _ _ no => nomatch no⟩
      · exact ⟨fun no => absurd no.commits (by simp [commits]), fun _ _ _ => spared⟩
    | some binding =>
      rw [commits] at ends
      rcases ends with ⟨rfl, accepted, takes⟩ | ⟨⟨err, rfl⟩, refused, runs⟩
      · have later : c.store.lastSequence < d.store.lastSequence := by
          have next := (sequence_takes idle takes).2 (List.cons_ne_nil _ _)
          exact Fin.lt_def.mpr (by omega)
        have found := inForce_revalidated idle outdated takes
        rw [identity] at found
        apply Op.ensures_get_bind
        rw [show (d.currentRecord id).filter _ = d.inForce id from rfl]
        cases force : d.inForce id with
        | none =>
          refine ⟨fun _ => ⟨⟨_, rfl⟩, later⟩, fun no => absurd ?_ no⟩
          exact ⟨by simpa using anew, live, outdated, ⟨binding, commits, accepted⟩, found.mp force⟩
        | some latest =>
          refine ⟨fun no => ?_, fun _ _ no => nomatch no⟩
          rw [force] at found
          exact absurd (found.mpr no.outranked) (by simp)
      · refine ⟨fun no => ?_, fun _ _ _ => runs.unaffected idle⟩
        obtain ⟨other, same, accepted⟩ := no.commits
        rw [commits] at same
        obtain rfl := Option.some.inj same
        exact absurd (accepted.symm.trans refused) (by simp)

/-- A revalidation starts where time has been reconciled. -/
theorem ensures_openNamed_place {now : Timestamp} {context : RequestContext} {id : ReservationId}
    {generation : ReservationGeneration} {absent : String} {c : Coordinator} :
    Op.Ensures (openNamed now context id generation absent) c fun r d => match r with
      | .ok _ => d = ((reconcile now).exec c).2
      | .error _ => Spared (reconcile now) c d := by
  unfold openNamed namedRecord
  refine Op.ensures_get_bind (Op.ensures_lift_bind (fun _ _ => ?_) fun _ _ => .inl (.refl c))
  rw [bind_assoc]
  apply Op.ensures_get_bind
  split
  · exact .inl (.refl c)
  · rename_i r found
    rw [pure_bind]
    unfold Op.Ensures Spared
    rcases run : (reconcile now).exec c with ⟨e | ⟨⟩, d⟩
    · rw [Op.exec_bind_of_error run]
      exact .inr (.refl d)
    · rw [Op.exec_bind_of_ok run]
      rfl

end Coordinator

/-! ## Every request -/

namespace Request

/-- The requests that decide on one reservation. -/
def Decides : Request → Prop
  | create .. | amend .. | release .. | «recall» .. | revoke .. | revalidate .. => True
  | _ => False

/-- What such a request does before it decides. -/
def prepare : Request → Coordinator.Method Unit
  | create now _ terms _ _ _ => Coordinator.prepareTerms now terms
  | amend now _ _ _ terms _ => Coordinator.prepareTerms now terms
  | release now context _ _ => Coordinator.prepareRelease now context
  | «recall» now _ _ _ _ _ _ => Coordinator.reconcile now
  | revoke now _ _ _ => Coordinator.reconcile now
  | revalidate now _ _ _ _ => Coordinator.reconcile now
  | _ => pure ()

/-- **The request has had no effect**: it has left the state it found, or the one that the
registration of its claimant and the reconciliation of time have led to, up to the arrangement of the
index; so the directory is the one of that state too. No generation has been committed since it
began, and no attempt has been retained. -/
structure WithoutEffect (request : Request) (c c' : Coordinator) : Prop where
  left : Coordinator.Spared request.prepare c c'
  memory : c'.memory = c.memory

/-- **The request commits, and then fails**: a store call of the maintenance behind its commit fails, or
the successor it has committed is not the current generation. -/
def Exposed : Request → Coordinator → Prop
  | create now context terms requestedId dryRun holds, c => ∃ answer at' d,
      (Coordinator.createCommit now context terms requestedId dryRun holds).exec c =
        (.ok (answer, some at'), d) ∧ ¬ d.Settles at'
  | amend now context target generation terms dryRun, c => ∃ answer at' d,
      (Coordinator.amendCommit now context target generation terms dryRun).exec c =
        (.ok (answer, some at'), d) ∧ ¬ d.Settles at'
  | revalidate now context id generation markStale, c => ∃ r d,
      (Coordinator.openNamed now context id generation
        "the reservation generation to revalidate does not exist").exec c = (.ok r, d) ∧
          d.Overshadows now context markStale r
  | _, _ => False

end Request

namespace Coordinator

theorem within_prepareTerms {request : Request} {now : Timestamp} {terms : ReservationTerms}
    (own : request.Carries (.claimant ⟨terms.claimant, terms.claimantGeneration, now⟩)) :
    Op.Within (Prepared request) (prepareTerms now terms) := by
  unfold prepareTerms
  exact Op.within_bind (within_ensureClaimant_prepared request own) fun _ =>
    within_reconcile_prepared request now

theorem within_prepare (request : Request) : Op.Within (Prepared request) request.prepare := by
  cases request with
  | create => exact within_prepareTerms rfl
  | amend => exact within_prepareTerms rfl
  | release now context id generation => exact within_prepareRelease now context id generation
  | «recall» => exact within_reconcile_prepared _ _
  | revoke => exact within_reconcile_prepared _ _
  | revalidate => exact within_reconcile_prepared _ _
  | _ => exact Op.within_pure ()

/-- Preparations commit nothing and retain no attempt. -/
theorem Prepared.memory {request : Request} {c d : Coordinator} (idle : Idle c)
    (h : Prepared request c d) : d.memory = c.memory := by
  refine ((h idle).2.invariant_idle idle (I := fun e => e.memory = c.memory) ?_ rfl).2
  rintro e e' m eIdle same ⟨prepares, -⟩ takes
  have added := memory_takes eIdle takes
  have nothing : m.recollections e = [] := by
    cases m <;> first
      | rfl
      | exact prepares.elim
      | (obtain ⟨rfl, -⟩ := prepares; rfl)
  rw [nothing] at added
  exact added.trans same

/-- **How a request fails**: after its commit if it is exposed, and without effect otherwise. -/
theorem fails_perform {request : Request} (decides : request.Decides) {c : Coordinator}
    (idle : Idle c) : Fails (request.Exposed c) request.prepare request.perform c := by
  cases request with
  | create now context terms requestedId dryRun holds =>
    have fails := fails_maintain (spares_createCommit now context terms requestedId dryRun holds idle)
      fun answer at' d run => by
        obtain ⟨p, victims, e, admits, eIdle, takes⟩ := takes_createCommit idle run
        have opens := opens_admitCreate now context terms requestedId dryRun holds c
        exact ⟨e, _, (Op.Ensures.of_run opens admits).2 p rfl, eIdle, takes, List.cons_ne_nil _ _⟩
    rw [← create_eq] at fails
    exact fails.discard
  | amend now context target generation terms dryRun =>
    have fails := fails_maintain (spares_amendCommit now context target generation terms dryRun idle)
      fun answer at' d run => by
        obtain ⟨p, superseded, successors, mutation, e, admits, eIdle, takes⟩ :=
          takes_amendCommit idle run
        have opens := opens_admitAmend now context target generation terms c
        exact ⟨e, _, (Op.Ensures.of_run opens admits).2 p rfl, eIdle, takes, List.cons_ne_nil _ _⟩
    rw [← amend_eq] at fails
    exact fails.discard
  | release now context id generation =>
    exact (spares_release now context id generation idle).fails.discard
  | «recall» now context id generation effectiveAt grace force =>
    exact (spares_recall now context id generation effectiveAt grace force idle).fails.discard
  | revoke now context id generation =>
    exact (spares_revoke now context id generation idle).fails.discard
  | revalidate now context id generation markStale =>
    refine Fails.discard ?_
    rw [revalidate_eq]
    refine Op.ensures_bind_run fun r d opens => ?_
    have place := ensures_openNamed_place.of_run opens
    obtain ⟨runs, named⟩ := (ensures_openNamed idle).of_run opens
    rcases r with e | r
    · refine ⟨fun ⟨_, _, no, _⟩ => ?_, fun _ _ _ => place⟩
      rw [opens] at no
      cases no
    · obtain ⟨-, key, stored⟩ := named r rfl
      refine (ensures_decideRevalidation_failing (runs idle).1 key stored).mono ?_
      rintro res d' ⟨late, spared⟩
      refine ⟨fun ⟨r', e, opens', shadows⟩ => ?_, fun no err failed => .inr ?_⟩
      · rw [opens] at opens'
        cases opens'
        obtain ⟨failed, later⟩ := late shadows
        refine ⟨failed, ?_⟩
        change ((reconcile now).exec c).2.store.lastSequence < _
        rw [← place]
        exact later
      · change Unaffected ((reconcile now).exec c).2 d'
        rw [← place]
        exact spared (fun shadows => no ⟨r, d, opens, shadows⟩) err failed
  | _ => exact decides.elim

end Coordinator

namespace System.Sample

/-- One reservation has been released, so an archival is due behind the next commit. -/
def due : List Action := [opened 0, ingested, created 1 3 20 10 21, released 1 4 30 21 1]

/-- A create behind which the archival is due. -/
def creating : Request := .create 5 (context 1 40) (terms 10) 22 false []

end System.Sample

end Brf
