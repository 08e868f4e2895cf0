import Brf.Commitments
import Brf.Listing
import Brf.Reachable

/-!
# Evaluations that commit nothing

`create_locked`, `amend_locked` and `explain_conflicts` take entries out of the index, entry by
entry, to see what would fit without them, and a scope guard puts them back.

* `openCreate`, `openAmend` and `openExplain` are the openings of the three calls, up to the time
  reconciliation.
* `Committed answer`: the call has made its commit.
* `Untraced s d`: the index has the same entries, occupies the same, and the holds and the records
  are the same.

Results: `Evaluation.exact_restore` (restoring keeps the trees exact) and `evaluation_untraced`.
-/

namespace Brf

open Brf.Lib

namespace Coordinator

/-! ## The openings -/

/-- The opening of `create_locked`. -/
def openCreate (now : Timestamp) (context : RequestContext) (terms : ReservationTerms) :
    Method Unit := do
  Op.lift ((← get).validateContext context true)
  Op.lift (validateTerms terms)
  Op.refuseIf (!context.claimant.isNil && context.claimant ≠ terms.claimant)
    (makeError .authorityRequired
      "request claimant identity does not match the reservation claimant")
  ensureClaimant terms.claimant terms.claimantGeneration now
  reconcile now

/-- The opening of `amend_locked`; a retry ends before time is reconciled. -/
def openAmend (now : Timestamp) (context : RequestContext) (target : ReservationId)
    (generation : ReservationGeneration) (terms : ReservationTerms) : Method Unit := do
  Op.lift ((← get).validateContext context true)
  Op.lift (validateTerms terms)
  let c ← get
  match c.findRecord target generation with
  | none => throw (makeError .notFound "the reservation generation to amend does not exist")
  | some predecessor =>
    match c.attempts[context.attempt]? with
    | some previous =>
      Op.refuseIf (previous.fingerprint ≠ amendmentFingerprint target generation terms)
        (makeError .conflict "attempt identity was already used for a different amendment")
    | none =>
      Op.refuseIf (isTerminal predecessor.state) ⟨.illegalTransition, ascii
        "a reservation in state " ++ predecessor.state.spelling ++ ascii " cannot be amended"⟩
      Op.refuseIf (terms.claimant ≠ predecessor.terms.claimant)
        (makeError .authorityRequired "an amendment must keep the same claimant identity")
      Op.refuseIf (terms.claimantGeneration < predecessor.terms.claimantGeneration)
        (makeError .fencedClaimant "the amendment carries a stale claimant generation")
      ensureClaimant terms.claimant terms.claimantGeneration now
      reconcile now

/-- The opening of `explain_conflicts`. -/
def openExplain (now : Timestamp) (terms : ReservationTerms) : Method Unit := do
  Op.lift (validateTerms terms)
  reconcile now

section

variable {α β γ : Type} {m : Method α} {c : Coordinator}

/-- What follows changes nothing. -/
theorem end_of_still {f : α → Method β} (still : ∀ a, Op.Within Eq (f a)) :
    ((m >>= f).exec c).2 = (m.exec c).2 := by
  rw [Op.exec_bind]
  rcases m.exec c with ⟨_ | a, d⟩
  · rfl
  · exact (still a d).symm

/-- What follows ends in the same states. -/
theorem end_congr {f : α → Method β} {g : α → Method γ}
    (same : ∀ a d, ((f a).exec d).2 = ((g a).exec d).2) :
    ((m >>= f).exec c).2 = ((m >>= g).exec c).2 := by
  rw [Op.exec_bind, Op.exec_bind]
  rcases m.exec c with ⟨_ | a, d⟩
  · rfl
  · exact same a d

end

/-- The checks of a create change nothing after its opening. -/
theorem end_admitCreate (now : Timestamp) (context : RequestContext) (terms : ReservationTerms)
    (requestedId : ReservationId) (dryRun : Bool) (holds : List HoldId) (c : Coordinator) :
    ((admitCreate now context terms requestedId dryRun holds).exec c).2 =
      ((openCreate now context terms).exec c).2 := by
  unfold admitCreate openCreate
  refine end_congr fun _ _ => end_congr fun _ _ => end_congr fun _ _ => end_congr fun _ _ =>
    end_congr fun _ d => end_of_still fun _ => ?_
  refine Op.within_bind Op.within_get fun s => ?_
  dsimp only
  refine Op.within_bind (Op.within_lift _) fun _ => ?_
  split
  · exact Op.within_bind (Op.within_refuseIf _ _) fun _ => Op.within_pure _
  · refine Op.within_bind (Op.within_refuseIf _ _) fun _ => ?_
    refine Op.within_bind (Op.within_refuseIf _ _) fun _ => ?_
    refine Op.within_bind (Op.within_refuseIf _ _) fun _ => ?_
    refine Op.within_bind (Op.within_lift _) fun _ => ?_
    exact Op.within_bind (Op.within_lift _) fun _ => Op.within_pure _

/-- The checks of an amendment change nothing after its opening. -/
theorem end_admitAmend (now : Timestamp) (context : RequestContext) (target : ReservationId)
    (generation : ReservationGeneration) (terms : ReservationTerms) (c : Coordinator) :
    ((admitAmend now context target generation terms).exec c).2 =
      ((openAmend now context target generation terms).exec c).2 := by
  unfold admitAmend openAmend
  refine end_congr fun _ _ => end_congr fun _ _ => end_congr fun _ _ => end_congr fun s _ => ?_
  cases s.findRecord target generation with
  | none => rfl
  | some predecessor =>
    cases s.attempts[context.attempt]? with
    | some previous => exact end_of_still fun _ => Op.within_pure _
    | none =>
      refine end_congr fun _ _ => end_congr fun _ _ => end_congr fun _ _ => end_congr fun _ _ =>
        end_of_still fun _ => ?_
      refine Op.within_bind Op.within_get fun s => ?_
      dsimp only
      refine Op.within_bind (Op.within_lift _) fun _ => ?_
      exact Op.within_bind (Op.within_lift _) fun _ => Op.within_pure _


/-! ## What has been taken out fits back in -/

/-- The trees stay exact. -/
def KeepsExact (c d : Coordinator) : Prop := c.index.Exact → d.index.Exact

instance : IsPreorder Coordinator KeepsExact where
  refl _ h := h
  trans _ _ _ h h' exact := h' (h exact)

/-- Entries of an exact index fit into an index that has only such entries. -/
theorem fits_of_subset {x z : CapacityIndex} (hx : x.Wf) (hz : z.Wf) (exact : z.Exact)
    {e : IndexEntry} (fresh : ∀ f, x.Has f → f.identity ≠ e.identity) (there : z.Has e)
    (only : ∀ f, x.Has f → z.Has f) (t : Int) :
    loadAt ((e :: x.entriesOn e.resource).map IndexEntry.usage) t ≤ IntervalIndex.maxLoad := by
  have single : (e :: x.entriesOn e.resource).Nodup := by
    refine List.nodup_cons.mpr ⟨fun mem => ?_, CapacityIndex.nodup_entriesOn hx _⟩
    exact fresh e ((CapacityIndex.mem_entriesOn hx).mp mem).1 rfl
  have inside : (e :: x.entriesOn e.resource) ⊆ z.entriesOn e.resource := by
    refine List.cons_subset.mpr ⟨(CapacityIndex.mem_entriesOn hz).mpr ⟨there, rfl⟩, fun f hf => ?_⟩
    obtain ⟨has, here⟩ := (CapacityIndex.mem_entriesOn hx).mp hf
    exact (CapacityIndex.mem_entriesOn hz).mpr ⟨only f has, here⟩
  obtain ⟨es, perm, sub⟩ := List.subperm_of_subset single inside
  have tracks := (CapacityIndex.exact_stateOf exact e.resource).combined
  rw [← loadAt_perm (perm.map IndexEntry.usage)]
  exact (loadAt_sublist (sub.map IndexEntry.usage) tracks.valid t).trans (tracks.bounded t)

/-- An entry of an exact index is inserted into an exact index that has only such entries. -/
theorem exact_reinsert {x y z : CapacityIndex} (hx : x.Wf) (hz : z.Wf) (exact : z.Exact)
    {e : IndexEntry} (whole : x.Exact) (there : z.Has e) (only : ∀ f, x.Has f → z.Has f)
    {r : Except Error Unit} (run : (CapacityIndex.insert e).exec x = (r, y)) :
    y.Exact ∧ y.Wf ∧ ∀ f, y.Has f → z.Has f := by
  obtain ⟨wf, result⟩ := (CapacityIndex.ensures_insert hx e).of_run run
  rcases r with err | ⟨⟩
  · obtain ⟨rfl, -⟩ := result
    exact ⟨whole, hx, only⟩
  · obtain ⟨-, fresh, has⟩ := result
    have valid := (CapacityIndex.exact_stateOf exact e.resource).combined.valid e.usage
      (List.mem_map_of_mem ((CapacityIndex.mem_entriesOn hz).mpr ⟨there, rfl⟩))
    refine ⟨(CapacityIndex.exact_insert whole valid
      (fits_of_subset hx hz exact fresh there only)).of_run run, wf, fun f hf => ?_⟩
    rcases (has f).mp hf with rfl | before
    · exact there
    · exact only f before

/-- A loop of insertions keeps the trees exact, if all entries together are those of an exact
index. -/
theorem exact_restoreAll {z : CapacityIndex} (hz : z.Wf) (exact : z.Exact) :
    ∀ {entries : List IndexEntry} {c : Coordinator}, c.index.Wf → c.index.Exact →
      (∀ f, c.index.Has f → z.Has f) → (∀ e ∈ entries, z.Has e) →
      Op.Ensures (Op.each (fun e => do
        discard <| Op.attempt <| onIndex (CapacityIndex.insert e)) entries) c fun _ d =>
          d.index.Exact
  | [], _, _, whole, _, _ => whole
  | e :: rest, c, wf, whole, only, there => by
    obtain ⟨first, there⟩ := List.forall_mem_cons.mp there
    rcases run : (CapacityIndex.insert e).exec c.index with ⟨r, y⟩
    obtain ⟨whole', wf', only'⟩ := exact_reinsert wf hz exact whole first only run
    apply Op.ensures_bind
    apply Op.ensures_discard
    apply Op.ensures_attempt
    refine (ensures_onIndex (.of_exec run rfl : Op.Ensures _ _ fun _ t => t = y)).mono ?_
    rintro _ _ ⟨_, rfl, rfl⟩
    cases r <;> exact exact_restoreAll hz exact wf' whole' only' there

/-- **Restoring** what an evaluation has taken out keeps the trees exact. -/
theorem Evaluation.exact_restore {s c e : Coordinator} (h : Evaluation c e) (wf : s.index.Wf)
    (same : ∀ f, c.index.Has f ↔ s.index.Has f) (exact : s.index.Exact) (whole : e.index.Exact) :
    Op.Ensures restore e fun _ d => d.index.Exact := by
  unfold restore
  apply Op.ensures_get_bind
  apply Op.ensures_modify_bind
  refine exact_restoreAll wf exact (c := { e with suspended := [] }) h.wf whole (fun f hf => ?_)
    fun f hf => ?_
  · exact (same f).mp ((h.has f).mpr (.inl hf))
  · exact (same f).mp ((h.has f).mpr (.inr hf))

/-! ## Taking entries out keeps the trees exact -/

theorem within_onStore_exact {α : Type} (m : Store.Method α) : Op.Within KeepsExact (onStore m) :=
  fun c => (id : KeepsExact c _)

theorem within_takeOut {es : List IndexEntry} (kind : HolderKind) :
    Op.Within KeepsExact (Op.each (fun e : IndexEntry => (do
      modify fun c : Coordinator => { c with suspended := c.suspended ++ [e] }
      onIndex (CapacityIndex.erase kind e.id e.holderGeneration e.resource) : Method Unit)) es) := by
  refine Op.within_each (fun e => Op.within_bind (Op.within_modify fun _ whole => whole) fun _ c =>
    ?_) es
  refine (ensures_onIndex (Q := fun _ y => c.index.Exact → y.Exact) ?_).mono ?_
  · by_cases whole : c.index.Exact
    · exact (CapacityIndex.exact_erase whole kind e.id e.holderGeneration e.resource).mono
        fun _ _ kept _ => kept
    · exact fun not => absurd not whole
  · rintro _ _ ⟨y, rfl, kept⟩
    exact kept

theorem within_suspend_exact (r : ReservationRecord) : Op.Within KeepsExact (suspend r) := by
  unfold suspend
  exact Op.within_get_bind fun c => within_takeOut .reservation c

theorem within_suspendHold_exact (id : HoldId) : Op.Within KeepsExact (suspendHold id) := by
  unfold suspendHold
  exact Op.within_get_bind fun c => within_takeOut .hold c

theorem within_suspendConsumed_exact (context : RequestContext) (id : HoldId) :
    Op.Within KeepsExact (suspendConsumed context id) := by
  unfold suspendConsumed
  refine Op.within_bind Op.within_get fun c => ?_
  cases c.holds[id]?.filter fun hold => !hold.released with
  | none => exact Op.within_throw _
  | some hold =>
    exact Op.within_bind (Op.within_refuseIf _ _) fun _ => within_suspendHold_exact id

theorem within_planVictims_exact (p : CreatePlan) : ∀ (candidates victims : List IndexEntry),
    Op.Within KeepsExact (planVictims p candidates victims)
  | [], victims => Op.within_pure _
  | candidate :: rest, victims => by
    unfold planVictims
    refine Op.within_ite (Op.within_pure _) (Op.within_bind Op.within_get fun c => ?_)
    cases c.findRecord candidate.id candidate.holderGeneration with
    | none => exact within_planVictims_exact p rest victims
    | some victim =>
      refine Op.within_bind (Op.within_attempt (within_suspend_exact victim)) fun taken => ?_
      rcases taken with _ | ⟨⟩
      · exact within_planVictims_exact p rest victims
      · refine Op.within_bind Op.within_get fun e => ?_
        cases e.evaluate p.terms p.binding p.policy p.intervals with
        | ok evaluations => exact Op.within_pure _
        | error short => exact within_planVictims_exact p rest _

theorem within_planPreemption_exact (p : CreatePlan) (window : Interval) :
    ∀ (refs : List ResourceRef) (victims : List IndexEntry),
      Op.Within KeepsExact (planPreemption p window refs victims)
  | [], victims => Op.within_pure _
  | ref :: rest, victims => by
    unfold planPreemption
    refine Op.within_ite (Op.within_pure _) (Op.within_bind Op.within_get fun c => ?_)
    refine Op.within_bind (within_planVictims_exact p _ victims) fun outcome => ?_
    rcases outcome with ⟨victims, _ | evaluations⟩
    · exact within_planPreemption_exact p window rest victims
    · exact Op.within_pure _

theorem within_evaluateCreate_exact (p : CreatePlan) :
    Op.Within KeepsExact (evaluateCreate p) := by
  unfold evaluateCreate
  refine Op.within_bind (Op.within_each (within_suspendConsumed_exact p.context) p.holds)
    fun _ => Op.within_bind Op.within_get fun c => ?_
  cases c.evaluate p.terms p.binding p.policy p.intervals with
  | ok evaluations => exact Op.within_pure _
  | error short =>
    refine Op.within_ite ?_ (Op.within_pure _)
    refine Op.within_bind (within_planPreemption_exact p short.1 _ []) fun outcome => ?_
    rcases outcome with ⟨victims, _ | evaluations⟩
    · exact Op.within_pure _
    · exact Op.within_pure _

theorem within_refuseAttempt_exact (attempt : DurableSequence → AttemptRecord) :
    Op.Within KeepsExact (refuseAttempt attempt) := by
  unfold refuseAttempt append
  refine Op.within_bind (within_onStore_exact _) fun _ => ?_
  exact Op.within_bind (Op.within_modify fun _ whole => whole) fun _ => Op.within_pure _

/-! ## Nothing is left behind -/

/-- The call has made its commit. -/
def Committed {α : Type} (answer : Except Error (α × Option Timestamp)) : Prop :=
  ∃ result now, answer = .ok (result, some now)

/-- Between the two states nothing has happened to the index entries, to what they occupy, to the
holds and to the records. The trees report what the entries occupy where their sums stay below the
saturation. -/
structure Untraced (s d : Coordinator) : Prop where
  has : ∀ e, d.index.Has e ↔ s.index.Has e
  listed : ∀ n, (d.index.entriesOn n).Perm (s.index.entriesOn n)
  load : ∀ n t, d.index.load n t = s.index.load n t
  peaks : s.index.Exact → ∀ n window, d.index.peakCommitted n window = s.index.peakCommitted n window ∧
    d.index.peakHolds n window = s.index.peakHolds n window ∧
    d.index.peakCombined n window = s.index.peakCombined n window
  holds : d.holds = s.holds
  records : d.records = s.records

/-- The moves of an evaluation that commits nothing. -/
def Traceless : Move → Prop
  | .quiet | .refusal _ | .reindexed => True
  | _ => False

/-- The same entries, holds and records. -/
def SameHoldings (s d : Coordinator) : Prop :=
  (∀ e, d.index.Has e ↔ s.index.Has e) ∧ d.holds = s.holds ∧ d.records = s.records

theorem sameHoldings_traceless {c c' : Coordinator} {m : Move} (h : Traceless m)
    (takes : m.Takes c c') : SameHoldings c c' := by
  cases m with
  | quiet =>
    obtain ⟨faults, stats, rfl⟩ := takes
    exact ⟨fun _ => Iff.rfl, rfl, rfl⟩
  | refusal outcome =>
    obtain ⟨-, -, c₁, ⟨-, faults, rfl⟩, rfl⟩ := takes
    exact ⟨fun _ => Iff.rfl, rfl, rfl⟩
  | reindexed =>
    obtain ⟨y, rfl, -, has⟩ := takes
    exact ⟨has, rfl, rfl⟩
  | _ => exact absurd h id

theorem Moves.sameHoldings {c c' : Coordinator} (h : Moves (fun _ m => Traceless m) c c') :
    SameHoldings c c' :=
  h.relates (fun _ => ⟨fun _ => Iff.rfl, rfl, rfl⟩)
    (fun h h' => ⟨fun e => (h'.1 e).trans (h.1 e), h'.2.1.trans h.2.1, h'.2.2.trans h.2.2⟩)
    fun _ _ _ => sameHoldings_traceless

theorem SameHoldings.untraced {s d : Coordinator} (h : SameHoldings s d) (before : Idle s)
    (after : Idle d) (exact : KeepsExact s d) : Untraced s d := by
  have listed := CapacityIndex.entriesOn_perm after.consistent.index before.consistent.index h.1
  exact
    { has := h.1
      listed
      load := fun n t => loadAt_perm ((listed n).map IndexEntry.usage) t
      peaks := fun whole n window => CapacityIndex.peaks_perm (exact whole) whole (listed n) window
      holds := h.2.1
      records := h.2.2 }

/-- **Scope rule**: an evaluation that keeps nothing leaves nothing behind. -/
theorem ensures_untraced {α : Type} {body : Method α} {s : Coordinator} (idle : Idle s)
    (keeps : Except Error α → Prop)
    (kept : ∀ r e, body.exec s = (r, e) → keeps r → e.suspended = [])
    (h : Op.Ensures body s fun r e => ¬ keeps r → Evaluated Traceless s e ∧ KeepsExact s e) :
    Op.Ensures (withSuspension body) s fun r d => ¬ keeps r → Untraced s d := by
  rcases run : body.exec s with ⟨r, e⟩
  have ends := h.of_run run
  unfold Op.Ensures
  rw [exec_withSuspension, run]
  by_cases committed : keeps r
  · rw [exec_restore_nothing (kept r e run committed)]
    exact fun not => absurd committed not
  · obtain ⟨⟨d₀, dIdle, moves, evaluation⟩, whole⟩ := ends committed
    have same := moves.sameHoldings
    have put := ensures_restore evaluation.wf evaluation.able
    rcases back : restore.exec e with ⟨r', d⟩
    obtain ⟨rfl, y, shape, wf, has⟩ := put.of_run back
    have restored : SameHoldings d₀ d ∧ Idle d := by
      obtain ⟨⟨index, suspended, rfl⟩, -, -, all⟩ := evaluation
      have takes : Move.reindexed.Takes d₀ d := by
        refine ⟨y, ?_, wf, fun f => (has f).trans (all f).symm⟩
        rw [shape]
        unfold withIndex
        rw [← dIdle.suspended]
      exact ⟨sameHoldings_traceless (m := .reindexed) trivial takes, idle_takes dIdle takes⟩
    intro _
    have total : SameHoldings s d :=
      ⟨fun f => (restored.1.1 f).trans (same.1 f), restored.1.2.1.trans same.2.1,
        restored.1.2.2.trans same.2.2⟩
    refine total.untraced idle restored.2 fun exact => ?_
    exact (evaluation.exact_restore idle.consistent.index same.1 exact (whole exact)).of_run back

/-! ## The three calls -/

theorem faultsOnly_exact {c d : Coordinator} (h : FaultsOnly c d) : KeepsExact c d := by
  obtain ⟨faults, rfl⟩ := h
  exact id

/-- A refusal made durable, or not. -/
theorem ensures_refuseAttempt_traceless {c e : Coordinator} (idle : Idle c)
    (evaluation : Evaluation c e) {attempt : DurableSequence → AttemptRecord}
    (sequenced : ∀ s, attempt s = { attempt 0 with resultSequence := s })
    (unused : c.attempts[(attempt 0).attempt]? = none) :
    Op.Ensures (refuseAttempt attempt) e fun _ e' =>
      Evaluated Traceless c e' ∧ KeepsExact e e' := by
  have ends := ensures_refuseAttempt (P := fun _ => Traceless) (Q := Traceless) trivial idle
    evaluation sequenced unused trivial
  rcases run : (refuseAttempt attempt).exec e with ⟨r, e'⟩
  refine .of_exec run ⟨?_, (within_refuseAttempt_exact attempt e).of_run run⟩
  have ends := ends.of_run run
  cases r <;> exact ends

theorem ensures_decideCreate_traceless {c e : Coordinator} (idle : Idle c) {p : CreatePlan}
    (admitted : p.Admitted c) (whole : KeepsExact c e) {dryRun : Bool}
    {evaluation : Except Assessment (List Assessment × List IndexEntry)}
    (evaluated : match evaluation with
      | .ok (evaluations, victims) => Planned c p.holds victims e ∧
          (∀ id ∈ p.holds, ∃ hold, c.holds[id]? = some hold ∧ hold.released = false) ∧
          e.evaluate p.terms p.binding p.policy p.intervals = .ok evaluations
      | .error _ => Evaluation c e) :
    Op.Ensures (decideCreate p dryRun evaluation) e fun r e' =>
      ¬ Committed r → Evaluated Traceless c e' ∧ KeepsExact c e' := by
  rcases evaluation with failure | ⟨evaluations, victims⟩
  · unfold decideCreate finishCreate
    dsimp only at evaluated ⊢
    apply Op.ensures_bind
    refine Op.ensures_ite (fun _ _ => ⟨evaluated.evaluated idle, whole⟩) fun _ => ?_
    apply Op.ensures_bind
    refine (ensures_refuseAttempt_traceless idle evaluated (fun _ => rfl) admitted.unused).mono ?_
    rintro (err | sequence) e' ⟨ends, kept⟩
    · exact fun _ => ⟨ends, kept ∘ whole⟩
    · exact fun _ => ⟨ends, kept ∘ whole⟩
  · unfold decideCreate
    dsimp only at evaluated ⊢
    obtain ⟨planned, live, closes⟩ := evaluated
    refine Op.ensures_ite (fun _ _ => ⟨planned.evaluation.evaluated idle, whole⟩) fun _ => ?_
    apply Op.ensures_get_bind
    apply Op.ensures_bind
    refine (ensures_commitCreate idle admitted planned live closes).mono ?_
    rintro (err | sequence) e' ends
    · exact fun _ => ⟨planned.evaluation.faultsOnly (P := Traceless) trivial idle ends.1,
        faultsOnly_exact ends.1 ∘ whole⟩
    · exact fun not => absurd ⟨_, _, rfl⟩ not

/-- **A create** that commits nothing leaves nothing behind. -/
theorem untraced_create {c : Coordinator} (idle : Idle c) (now : Timestamp)
    (context : RequestContext) (terms : ReservationTerms) (requestedId : ReservationId)
    (dryRun : Bool) (holds : List HoldId) :
    Op.Ensures (createCommit now context terms requestedId dryRun holds) c fun r d =>
      ¬ Committed r → Untraced ((openCreate now context terms).exec c).2 d := by
  rw [← end_admitCreate now context terms requestedId dryRun holds c]
  unfold createCommit
  rcases run : (admitCreate now context terms requestedId dryRun holds).exec c with ⟨r, s⟩
  obtain ⟨prepared, plans⟩ :=
    (ensures_admitCreate now context terms requestedId dryRun holds idle).of_run run
  have sIdle : Idle s := (prepared idle).1
  have start : Untraced s s :=
    SameHoldings.untraced ⟨fun _ => Iff.rfl, rfl, rfl⟩ sIdle sIdle id
  apply Op.ensures_bind
  refine .of_exec run ?_
  rcases r with err | (replay | p)
  · exact fun _ => start
  · exact fun _ => start
  · obtain ⟨admitted, -, -⟩ := plans p rfl
    refine ensures_untraced sIdle Committed (fun r e h committed => ?_) ?_
    · obtain ⟨result, at', rfl⟩ := committed
      obtain ⟨_, _, -, decided⟩ := Op.exec_bind_ok h
      exact decideCreate_kept decided
    · apply Op.ensures_bind
      rcases evaluating : (evaluateCreate p).exec s with ⟨evaluation, e⟩
      have whole := (within_evaluateCreate_exact p s).of_run evaluating
      have evaluated := (ensures_evaluateCreate sIdle).of_run evaluating
      refine .of_exec evaluating ?_
      rcases evaluation with err | evaluation
      · exact fun _ => ⟨Evaluation.evaluated sIdle evaluated, whole⟩
      · refine ensures_decideCreate_traceless sIdle admitted whole ?_
        rcases evaluation with failure | ⟨evaluations, victims⟩
        · exact evaluated
        · exact evaluated

theorem ensures_decideAmend_traceless {c e : Coordinator} (idle : Idle c) {p : AmendPlan}
    (admitted : p.Admitted c) (whole : KeepsExact c e) {dryRun : Bool}
    {superseded : List ReservationRecord} (chosen : c.supersededBy p = .ok superseded)
    (evaluation : Evaluation c e)
    (taken : ∀ s ∈ e.suspended, s.kind = .reservation ∧
      ∃ r ∈ superseded, r.id = s.id ∧ r.generation = s.holderGeneration) :
    Op.Ensures (decideAmend p dryRun superseded
      (e.evaluate p.terms p.binding p.policy p.intervals)) e fun r e' =>
        ¬ Committed r → Evaluated Traceless c e' ∧ KeepsExact c e' := by
  cases closes : e.evaluate p.terms p.binding p.policy p.intervals with
  | error short =>
    unfold decideAmend finishAmend
    dsimp only
    apply Op.ensures_bind
    apply Op.ensures_bind
    refine Op.ensures_when (fun _ => ?_) fun _ _ => ⟨evaluation.evaluated idle, whole⟩
    apply Op.ensures_discard
    refine (ensures_refuseAttempt_traceless idle evaluation (fun _ => rfl)
      admitted.unused).mono ?_
    rintro (err | sequence) e' ⟨ends, kept⟩
    · exact fun _ => ⟨ends, kept ∘ whole⟩
    · exact fun _ => ⟨ends, kept ∘ whole⟩
  | ok evaluations =>
    unfold decideAmend
    dsimp only
    refine Op.ensures_ite (fun _ _ => ⟨evaluation.evaluated idle, whole⟩) fun _ => ?_
    apply Op.ensures_get_bind
    refine Op.ensures_lift_bind (fun ⟨mutation, successors⟩ made => ?_) fun _ _ _ =>
      ⟨evaluation.evaluated idle, whole⟩
    apply Op.ensures_bind
    refine (ensures_commitAmend idle admitted chosen evaluation taken closes made).mono ?_
    rintro (err | ⟨⟩) e' ends
    · exact fun _ => ⟨evaluation.faultsOnly (P := Traceless) trivial idle ends.1,
        faultsOnly_exact ends.1 ∘ whole⟩
    · exact fun not => absurd ⟨_, _, rfl⟩ not

/-- **An amendment** that commits nothing leaves nothing behind. -/
theorem untraced_amend {c : Coordinator} (idle : Idle c) (now : Timestamp)
    (context : RequestContext) (target : ReservationId) (generation : ReservationGeneration)
    (terms : ReservationTerms) (dryRun : Bool) :
    Op.Ensures (amendCommit now context target generation terms dryRun) c fun r d =>
      ¬ Committed r → Untraced ((openAmend now context target generation terms).exec c).2 d := by
  rw [← end_admitAmend now context target generation terms c]
  unfold amendCommit
  rcases run : (admitAmend now context target generation terms).exec c with ⟨r, s⟩
  obtain ⟨prepared, plans⟩ :=
    (ensures_admitAmend now context target generation terms dryRun idle).of_run run
  have sIdle : Idle s := (prepared idle).1
  have start : Untraced s s :=
    SameHoldings.untraced ⟨fun _ => Iff.rfl, rfl, rfl⟩ sIdle sIdle id
  apply Op.ensures_bind
  refine .of_exec run ?_
  rcases r with err | (replay | p)
  · exact fun _ => start
  · exact fun _ => start
  · obtain ⟨admitted, -, -⟩ := plans p rfl
    refine ensures_untraced sIdle Committed (fun r e h committed => ?_) ?_
    · obtain ⟨result, at', rfl⟩ := committed
      obtain ⟨_, _, -, h⟩ := Op.exec_bind_ok h
      obtain ⟨_, _, -, h⟩ := Op.exec_bind_ok h
      obtain ⟨_, _, -, h⟩ := Op.exec_bind_ok h
      obtain ⟨_, _, -, decided⟩ := Op.exec_bind_ok h
      exact decideAmend_kept decided
    · apply Op.ensures_get_bind
      refine Op.ensures_lift_bind (fun superseded chosen => ?_) fun _ _ _ =>
        ⟨(Evaluation.start sIdle).evaluated sIdle, id⟩
      apply Op.ensures_bind
      rcases taking : (Op.each suspend superseded).exec s with ⟨taken, e⟩
      have whole := (Op.within_each within_suspend_exact superseded s).of_run taking
      obtain ⟨rfl, evaluation, out⟩ :=
        (@Evaluation.ensures_suspendEach _ superseded _ (Evaluation.start sIdle)).of_run taking
      refine .of_exec taking ?_
      apply Op.ensures_get_bind
      refine ensures_decideAmend_traceless sIdle admitted whole chosen evaluation fun x hx => ?_
      refine (out x hx).resolve_left fun before => ?_
      rw [sIdle.suspended] at before
      exact absurd before List.not_mem_nil

/-- **An explanation** leaves nothing behind. -/
theorem untraced_explain {c : Coordinator} (idle : Idle c) (now : Timestamp)
    (terms : ReservationTerms) (candidate : ReservationId) :
    Op.Ensures (explainConflicts now terms candidate) c fun _ d =>
      Untraced ((openExplain now terms).exec c).2 d := by
  have nothing : ∀ {s : Coordinator}, Idle s → Untraced s s := fun sIdle =>
    SameHoldings.untraced ⟨fun _ => Iff.rfl, rfl, rfl⟩ sIdle sIdle id
  have refused : ∀ e, validateTerms terms = .error e →
      ((openExplain now terms).exec c).2 = c := fun e invalid => by
    unfold openExplain
    rw [invalid, Op.exec_bind, Op.exec_lift_error]
  have opened : ∀ v, validateTerms terms = .ok v →
      (openExplain now terms).exec c = (reconcile now).exec c := fun v valid => by
    unfold openExplain
    rw [valid, Op.exec_bind, Op.exec_lift_ok]
  unfold explainConflicts
  refine Op.ensures_lift_bind (fun v valid => ?_) fun e invalid => ?_
  · rw [opened v valid]
    apply Op.ensures_bind
    rcases run : (reconcile now).exec c with ⟨r, s⟩
    have sIdle : Idle s := ((within_reconcile (P := Clocked) (fun _ h => h) now c).of_run run
      idle).1
    refine .of_exec run ?_
    rcases r with err | ⟨⟩
    · exact nothing sIdle
    · apply Op.ensures_get_bind
      rcases s.policyFor terms.policy with ⟨policy, note⟩
      dsimp only
      refine Op.ensures_lift_bind (fun binding _ => ?_) fun _ _ => nothing sIdle
      refine (ensures_untraced sIdle (fun _ => False) (fun _ _ _ no => absurd no id) ?_).mono
        fun _ _ untraced => untraced id
      cases (s.currentRecord candidate).filter fun _ => !candidate.isNil with
      | none => exact fun _ => ⟨(Evaluation.start sIdle).evaluated sIdle, id⟩
      | some r =>
        apply Op.ensures_bind
        rcases taking : (suspend r).exec s with ⟨taken, e⟩
        have whole := (within_suspend_exact r s).of_run taking
        obtain ⟨rfl, evaluation, -⟩ := ((Evaluation.start sIdle).ensures_suspend r).of_run taking
        exact .of_exec taking fun _ => ⟨evaluation.evaluated sIdle, whole⟩
  · rw [refused e invalid]
    exact nothing idle

/-- A call that commits nothing ends where its attempt to commit ends. -/
theorem end_maintain {α : Type} {commit : Method (α × Option Timestamp)} {c : Coordinator}
    (not : ¬ Committed (commit.exec c).1) :
    ((commit >>= maintain).exec c).2 = (commit.exec c).2 := by
  rw [Op.exec_bind]
  rcases run : commit.exec c with ⟨err | ⟨result, _ | now⟩, d⟩
  · rfl
  · rfl
  · rw [run] at not
    exact absurd ⟨result, now, rfl⟩ not

end Coordinator

/-- **Evaluation leaves no trace.** A create or an amendment that does not get to its commit, and
every explanation, leave the entries of the index, what they occupy, the holds and the records as
the time reconciliation of the call has left them. -/
theorem evaluation_untraced {as : List Action} {c : Coordinator}
    (h : System.run as = .up c) (faults : List Bool) (now : Timestamp) :
    (∀ (context : RequestContext) (terms : ReservationTerms) (requestedId : ReservationId)
      (dryRun : Bool) (holds : List HoldId),
      ¬ Coordinator.Committed ((Coordinator.createCommit now context terms requestedId dryRun
        holds).exec (c.withFaults faults)).1 →
      ((Coordinator.openCreate now context terms).exec (c.withFaults faults)).2.Untraced
        ((Coordinator.create now context terms requestedId dryRun holds).exec
          (c.withFaults faults)).2) ∧
    (∀ (context : RequestContext) (target : ReservationId) (generation : ReservationGeneration)
      (terms : ReservationTerms) (dryRun : Bool),
      ¬ Coordinator.Committed ((Coordinator.amendCommit now context target generation terms
        dryRun).exec (c.withFaults faults)).1 →
      ((Coordinator.openAmend now context target generation terms).exec
        (c.withFaults faults)).2.Untraced
        ((Coordinator.amend now context target generation terms dryRun).exec
          (c.withFaults faults)).2) ∧
    ∀ (terms : ReservationTerms) (candidate : ReservationId),
      ((Coordinator.openExplain now terms).exec (c.withFaults faults)).2.Untraced
        ((Coordinator.explainConflicts now terms candidate).exec (c.withFaults faults)).2 := by
  have idle : Coordinator.Idle (c.withFaults faults) :=
    System.idle_withFaults (System.reachable_idle h).1 faults
  refine ⟨fun context terms requestedId dryRun holds not => ?_,
    fun context target generation terms dryRun not => ?_, fun terms candidate => ?_⟩
  · rw [Coordinator.create_eq, Coordinator.end_maintain not]
    exact Coordinator.untraced_create idle now context terms requestedId dryRun holds not
  · rw [Coordinator.amend_eq, Coordinator.end_maintain not]
    exact Coordinator.untraced_amend idle now context target generation terms dryRun not
  · exact Coordinator.untraced_explain idle now terms candidate

open System.Sample in
/-- A link of 100 bits per second that carries 60 refuses another 60, and an increase to 120. -/
theorem evaluation_untraced_refused :
    let c := (System.run [opened 0, ingested, created 1 3 20 60 21]).coordinator.withFaults []
    ((Coordinator.openCreate 4 (context 1 22) (terms 60)).exec c).2.Untraced
        ((Coordinator.create 4 (context 1 22) (terms 60) 23 false []).exec c).2 ∧
      ((Coordinator.openAmend 4 (context 1 22) 21 1 (terms 120)).exec c).2.Untraced
        ((Coordinator.amend 4 (context 1 22) 21 1 (terms 120) false).exec c).2 ∧
      ((Coordinator.openExplain 4 (terms 60)).exec c).2.Untraced
        ((Coordinator.explainConflicts 4 (terms 60) 21).exec c).2 := by
  intro c
  have facts : (System.run [opened 0, ingested, created 1 3 20 60 21]).isUp = true ∧
      (((Coordinator.createCommit 4 (context 1 22) (terms 60) 23 false []).exec
        c).1.toOption.bind Prod.snd).isNone = true ∧
      (((Coordinator.amendCommit 4 (context 1 22) 21 1 (terms 120) false).exec
        c).1.toOption.bind Prod.snd).isNone = true := by
    decide +kernel
  obtain ⟨up, refused, refused'⟩ := facts
  have not : ∀ {α : Type} (answer : Except Error (α × Option Timestamp)),
      (answer.toOption.bind Prod.snd).isNone = true → ¬ Coordinator.Committed answer := by
    rintro α _ none ⟨result, now, rfl⟩
    cases none
  obtain ⟨create, amend, explain⟩ := evaluation_untraced (System.eq_up up) [] 4
  exact ⟨create _ _ _ _ _ (not _ refused), amend _ _ _ _ _ (not _ refused'), explain _ _⟩

end Brf
