import Brf.MoveLaws

/-!
# What every operation may do besides its own work

Time reconciliation, archival, compaction, revalidation and the release of holds, as sequences of
moves.

* `Runs P` relates an idle state to the idle states that moves satisfying `P` lead to; it is a
  preorder, so an operation is checked piece by piece with the rules of `Op.Within`.
* `Housekeeping` are the moves that do not come from the arguments of a request.
* `Evaluated P c e`: moves satisfying `P` have led from `c` to a state of which `e` is an evaluation.
  It is what holds at every point of a suspension.

Results: `runs_reconcile`, `runs_settle`, `runs_refreshApplicability`, `runs_fenceHolds`,
`runs_detectOvercommit`, `runs_ensureClaimant` and the rule `within_withSuspension`.
-/

namespace Brf

open Brf.Lib

namespace Coordinator

/-- Moves that satisfy `P` lead from an idle state to an idle state. -/
def Runs (P : Move → Prop) (c c' : Coordinator) : Prop :=
  Idle c → Idle c' ∧ Moves (fun _ m => P m) c c'

instance (P : Move → Prop) : IsPreorder Coordinator (Runs P) where
  refl c h := ⟨h, .refl c⟩
  trans _ _ _ h h' idle :=
    have first := h idle
    have second := h' first.1
    ⟨second.1, first.2.trans second.2⟩

/-- One move. -/
theorem Runs.one {P : Move → Prop} {c c' : Coordinator} {m : Move} (h : P m)
    (takes : m.Takes c c') : Runs P c c' := fun idle =>
  ⟨idle_takes idle takes, .one m h takes⟩

theorem Runs.refl {P : Move → Prop} (c : Coordinator) : Runs P c c := Std.Refl.refl c

theorem Runs.trans {P : Move → Prop} {a b c : Coordinator} (h : Runs P a b) (h' : Runs P b c) :
    Runs P a c := IsTrans.trans a b c h h'

/-- The same, where `P` also looks at the state a move is made in. -/
def RunsAt (P : Coordinator → Move → Prop) (c c' : Coordinator) : Prop :=
  Idle c → Idle c' ∧ Moves P c c'

namespace RunsAt

variable {P Q : Coordinator → Move → Prop} {a b c : Coordinator}

theorem refl (c : Coordinator) : RunsAt P c c := fun idle => ⟨idle, .refl c⟩

theorem trans (h : RunsAt P a b) (h' : RunsAt P b c) : RunsAt P a c := fun idle =>
  have first := h idle
  have second := h' first.1
  ⟨second.1, first.2.trans second.2⟩

theorem one {m : Move} (h : P a m) (takes : m.Takes a b) : RunsAt P a b := fun idle =>
  ⟨idle_takes idle takes, .one m h takes⟩

theorem mono (imp : ∀ d m, P d m → Q d m) (h : RunsAt P a b) : RunsAt Q a b := fun idle =>
  ⟨(h idle).1, (h idle).2.mono imp⟩

end RunsAt

/-- Moves that satisfy `P` in whatever state. -/
theorem Runs.anywhere {P : Move → Prop} {Q : Coordinator → Move → Prop} {c c' : Coordinator}
    (h : Runs P c c') (imp : ∀ d m, P m → Q d m) : RunsAt Q c c' := fun idle =>
  ⟨(h idle).1, (h idle).2.mono imp⟩

/-- The moves of time reconciliation. -/
def Clocked : Move → Prop
  | .quiet | .releaseHold .. => True
  | .transition _ _ _ _ context retained => retained = false ∧ context.attempt.isNil = true
  | _ => False

/-- The moves of archival and compaction. -/
def Settling : Move → Prop
  | .quiet | .snapshot | .rotate | .retire _ => True
  | _ => False

/-- Moves that change nothing but the faults, the counts and the arrangement of the index. -/
def Idling : Move → Prop
  | .quiet | .reindexed => True
  | _ => False

/-- The moves that any operation may make. -/
def Housekeeping : Move → Prop
  | .snapshot | .rotate | .mark .. | .revalidate .. | .reindexed | .overcommit _ | .retire _ => True
  | m => Clocked m

theorem Settling.housekeeping {m : Move} (h : Settling m) : Housekeeping m := by
  cases m <;> trivial

/-- The moves that review a record: they mark it, or commit a successor of it. -/
def Move.Reviews : Move → Prop
  | .mark .. | .revalidate .. => True
  | _ => False

theorem Clocked.unreviewing {m : Move} (h : Clocked m) : ¬ m.Reviews := by
  cases m <;> first | exact id | exact h.elim

theorem Settling.unreviewing {m : Move} (h : Settling m) : ¬ m.Reviews := by
  cases m <;> first | exact id | exact h.elim

section

variable {P : Move → Prop}

/-! ## Appends -/

/-- A call on the store changes nothing but the store. -/
theorem ensures_onStore {α : Type} {m : Store.Method α} {c : Coordinator}
    {Q : Except Error α → Store → Prop} (h : Op.Ensures m c.store Q) :
    Op.Ensures (onStore m) c fun r c' => ∃ s, c' = c.withStore s ∧ Q r s :=
  Op.ensures_zoom ⟨_, rfl, h⟩

/-- Only the faults of the coming store calls have changed. -/
def FaultsOnly (c c' : Coordinator) : Prop := ∃ faults, c' = { c with store := { c.store with faults } }

theorem FaultsOnly.runs (hP : P .quiet) {c c' : Coordinator} (h : FaultsOnly c c') :
    Runs P c c' := by
  obtain ⟨faults, rfl⟩ := h
  exact .one hP ⟨faults, c.stats, rfl⟩

/-- The states differ in the faults, the counts and the arrangement of the index only. -/
structure Unaffected (c d : Coordinator) : Prop where
  shape : ∃ index faults stats, d = { c with index, store := { c.store with faults }, stats }
  entries : ∀ e, d.index.Has e ↔ c.index.Has e

theorem Unaffected.refl (c : Coordinator) : Unaffected c c :=
  ⟨⟨c.index, c.store.faults, c.stats, rfl⟩, fun _ => Iff.rfl⟩

theorem Unaffected.trans {a b c : Coordinator} (h : Unaffected a b) (h' : Unaffected b c) :
    Unaffected a c := by
  obtain ⟨⟨index, faults, stats, rfl⟩, entries⟩ := h
  obtain ⟨⟨index', faults', stats', rfl⟩, entries'⟩ := h'
  exact ⟨⟨index', faults', stats', rfl⟩, fun e => (entries' e).trans (entries e)⟩

theorem Unaffected.records {c d : Coordinator} (h : Unaffected c d) : d.records = c.records := by
  obtain ⟨⟨index, faults, stats, rfl⟩, -⟩ := h
  rfl

theorem Unaffected.sequence {c d : Coordinator} (h : Unaffected c d) :
    d.store.lastSequence = c.store.lastSequence := by
  obtain ⟨⟨index, faults, stats, rfl⟩, -⟩ := h
  rfl

theorem unaffected_takes {c d : Coordinator} {m : Move} (idles : Idling m) (takes : m.Takes c d) :
    Unaffected c d := by
  cases m with
  | quiet =>
    obtain ⟨faults, stats, rfl⟩ := takes
    exact ⟨⟨c.index, faults, stats, rfl⟩, fun _ => Iff.rfl⟩
  | reindexed =>
    obtain ⟨y, rfl, -, has⟩ := takes
    exact ⟨⟨y, c.store.faults, c.stats, rfl⟩, has⟩
  | _ => exact idles.elim

theorem Runs.unaffected {c d : Coordinator} (idle : Idle c) (h : Runs Idling c d) :
    Unaffected c d :=
  (h idle).2.relates .refl (fun first later => first.trans later) fun _ _ _ idles takes =>
    unaffected_takes idles takes

/-- An append makes a record durable under the next sequence, or changes nothing but the faults. -/
theorem ensures_appendRecord (d : DurableRecord) (c : Coordinator) :
    Op.Ensures (append d) c fun r c' => match r with
      | .ok sequence => sequence = c.store.lastSequence + 1 ∧ Appended d c c'
      | .error _ => FaultsOnly c c' := by
  unfold append onStore
  apply Op.ensures_zoom
  refine (Store.ensures_append d.kind (encodeRecord d) c.store).mono ?_
  rintro (e | sequence) s spec
  · obtain ⟨faults, rfl⟩ := spec
    exact ⟨faults, rfl⟩
  · obtain ⟨w, rfl, faults, rfl⟩ := spec
    exact ⟨rfl, w, faults, rfl⟩

/-- An append and what follows it in memory are one move, if the rest cannot fail. -/
theorem ensures_appended {α : Type} {d : DurableRecord} {f : DurableSequence → Method α}
    (hP : P .quiet) {c : Coordinator}
    (rest : ∀ c₁, Appended d c c₁ →
      Op.Ensures (f (c.store.lastSequence + 1)) c₁ fun _ c' => Runs P c c') :
    Op.Ensures (append d >>= f) c fun _ c' => Runs P c c' := by
  apply Op.ensures_bind
  refine (ensures_appendRecord d c).mono ?_
  rintro (e | sequence) c₁ spec
  · exact FaultsOnly.runs hP spec
  · obtain ⟨rfl, appended⟩ := spec
    exact rest c₁ appended

/-- The same when the number of the record does not matter. -/
theorem ensures_appended_discard {α : Type} {d : DurableRecord} {f : PUnit → Method α}
    (hP : P .quiet) {c : Coordinator}
    (rest : ∀ c₁, Appended d c c₁ → Op.Ensures (f ⟨⟩) c₁ fun _ c' => Runs P c c') :
    Op.Ensures (discard (append d) >>= f) c fun _ c' => Runs P c c' := by
  apply Op.ensures_bind
  apply Op.ensures_discard
  refine (ensures_appendRecord d c).mono ?_
  rintro (e | sequence) c₁ spec
  · exact FaultsOnly.runs hP spec
  · exact rest c₁ spec.2

/-! ## Transitions -/

/-- The next form of a record does not depend on the journal. -/
theorem Appended.transitioned {d : DurableRecord} {c c₁ : Coordinator} (h : Appended d c c₁)
    (r : ReservationRecord) (target : ReservationState) (now : Timestamp) (reason : Text)
    (context : RequestContext) (effect : Timestamp) (sequence : DurableSequence) :
    c₁.transitioned r target now reason context effect sequence =
      c.transitioned r target now reason context effect sequence := by
  obtain ⟨-, faults, rfl⟩ := h
  rfl

theorem Appended.lastSequence {d : DurableRecord} {c c₁ : Coordinator} (h : Appended d c c₁) :
    c₁.store.lastSequence = c.store.lastSequence + 1 := by
  obtain ⟨-, faults, rfl⟩ := h
  rfl

/-- What a transition leaves: the record moved, and nothing retained yet. -/
theorem ensures_transition {c : Coordinator} (h : Idle c) {r : ReservationRecord}
    (stored : c.records[r.key]? = some r) (target : ReservationState) (now : Timestamp)
    (reason : Text) (context : RequestContext) (effect : Timestamp) :
    Op.Ensures (transition r target now reason context effect) c fun res c' => match res with
      | .ok (moved, attempt) =>
          moved = c.transitioned r target now reason context effect (c.store.lastSequence + 1) ∧
          attempt = handedAttempt r target now context (c.store.lastSequence + 1) ∧ ∃ c₁,
          Appended (.reservationState (transitionMutation r target now reason context effect)) c c₁ ∧
          c' = ((applyTransition r target now reason context effect
            (c.store.lastSequence + 1)).exec c₁).2
      | .error _ => FaultsOnly c c' := by
  unfold transition
  apply Op.ensures_bind
  refine (ensures_appendRecord _ c).mono ?_
  rintro (e | sequence) c₁ spec
  · exact spec
  · obtain ⟨rfl, appended⟩ := spec
    have h₁ := h.appended appended
    have sound := h.consistent.sound _ _ stored
    have same := appended.transitioned r target now reason context effect (c.store.lastSequence + 1)
    apply Op.ensures_bind
    have done := ensures_applyTransition h₁.consistent.index sound target now reason context effect
      (c.store.lastSequence + 1)
    unfold Op.Ensures at done ⊢
    rw [done.1]
    exact ⟨same, rfl, c₁, appended, rfl⟩

/-- A transition that the coordinator makes on its own. -/
theorem runs_transition (quiet : P .quiet) {c : Coordinator} {r : ReservationRecord}
    (stored : c.records[r.key]? = some r) {target : ReservationState} {now : Timestamp}
    {reason : Text} {context : RequestContext} (live : isTerminal r.state = false)
    (legal : LegalTarget r target) (own : P (.transition r target now reason context false)) :
    Op.Ensures (transition r target now reason context 0) c fun res c' => Runs P c c' ∧
      (Idle c → ∀ moved attempt, res = .ok (moved, attempt) →
        moved = c.transitioned r target now reason context 0 (c.store.lastSequence + 1) ∧
          c'.records[moved.key]? = some moved) := by
  by_cases idle : Idle c
  · refine (ensures_transition idle stored target now reason context 0).mono ?_
    rintro (e | ⟨moved, attempt⟩) c' spec
    · exact ⟨FaultsOnly.runs quiet spec, fun _ _ _ res => absurd res (by simp)⟩
    · obtain ⟨rfl, -, c₁, appended, rfl⟩ := spec
      have takes : (Move.transition r target now reason context false).Takes c
          ((applyTransition r target now reason context 0 (c.store.lastSequence + 1)).exec c₁).2 := by
        obtain ⟨faults, rfl⟩ := appended.shape
        exact ⟨stored, live, legal, _, appended, rfl⟩
      obtain ⟨faults, y, -, left, -⟩ := takes_transition idle takes
      refine ⟨.one own takes, fun _ moved _ res => ?_⟩
      obtain ⟨rfl, -⟩ := Prod.mk.inj (Except.ok.inj res)
      refine ⟨rfl, ?_⟩
      rw [left]
      exact (congrArg (fun m : Map ReservationKey ReservationRecord => m[_]?)
        (moveRecord_records _ _ _)).trans ((Map.get_insert _ _ _ _).trans (if_pos rfl))
  · exact ⟨fun h => absurd h idle, fun h => absurd h idle⟩

/-! ## Time reconciliation -/

theorem runs_quiet (quiet : P .quiet) (c : Coordinator) (stats : Stats) :
    Runs P c { c with stats } := .one quiet ⟨c.store.faults, stats, rfl⟩

/-- Whatever is claimed about runs may assume that the state is idle. -/
theorem runs_intro {α : Type} {m : Method α} {c : Coordinator}
    (h : Idle c → Op.Ensures m c fun _ c' => Runs P c c') :
    Op.Ensures m c fun _ c' => Runs P c c' := by
  by_cases idle : Idle c
  · exact h idle
  · exact fun not => absurd not idle

/-- The context of the coordinator's own transitions carries no attempt. -/
theorem internalContext_attempt (c : Coordinator) (reason : String) :
    (c.internalContext reason).attempt.isNil = true := decide_eq_true rfl

theorem countRevocation_stats (c : Coordinator) : ∃ stats, c.countRevocation = { c with stats } :=
  ⟨_, rfl⟩

theorem countExpiry_stats (c : Coordinator) : ∃ stats, c.countExpiry = { c with stats } := ⟨_, rfl⟩

section

variable (hP : ∀ m, Clocked m → P m)

include hP

/-- A transition of the clock, followed by a count. -/
theorem runs_countedTransition {c : Coordinator} {r : ReservationRecord}
    (stored : c.records[r.key]? = some r) {target : ReservationState} {now : Timestamp}
    {reason : Text} {context : RequestContext} (live : isTerminal r.state = false)
    (legal : LegalTarget r target) (own : context.attempt.isNil = true)
    {count : Coordinator → Coordinator} (counts : ∀ c, ∃ stats, count c = { c with stats }) :
    Op.Ensures (do
      discard <| transition r target now reason context 0
      modify count : Method Unit) c fun _ c' => Runs P c c' := by
  apply Op.ensures_bind
  apply Op.ensures_discard
  refine (runs_transition (hP .quiet trivial) stored live legal (hP _ ⟨rfl, own⟩)).mono ?_
  rintro (e | moved) c₁ ⟨runs, -⟩
  · exact runs
  · apply Op.ensures_modify
    obtain ⟨stats, counted⟩ := counts c₁
    rw [counted]
    exact runs.trans (runs_quiet (hP .quiet trivial) c₁ stats)

/-- The end of a consuming record. -/
theorem runs_endDue (now : Timestamp) {context : RequestContext}
    (own : context.attempt.isNil = true) {c : Coordinator} {r : ReservationRecord}
    (stored : c.records[r.key]? = some r) :
    Op.Ensures (endDue now context r) c fun _ c' => Runs P c c' := by
  unfold endDue
  refine Op.ensures_ite (fun due => ?_) fun _ => Runs.refl c
  have live : isTerminal r.state = false := by
    have consumes : r.consumes = true := (Bool.and_eq_true _ _ ▸ due).1
    by_contra terminal
    rw [terminal_not_consumes (by simpa using terminal)] at consumes
    exact absurd consumes (by decide)
  refine Op.ensures_ite (fun _ => ?_) fun _ => ?_
  · exact runs_countedTransition hP stored live (.inr (.inr (.inl rfl))) own countRevocation_stats
  · exact runs_countedTransition hP stored live (.inr (.inr (.inr rfl))) own countExpiry_stats

/-- One turn of time reconciliation. -/
theorem within_reconcileTurn (now : Timestamp) {context : RequestContext}
    (own : context.attempt.isNil = true) (key : ReservationKey) :
    Op.Within (Runs P) (reconcileTurn now context key) := by
  refine fun c => runs_intro fun idle => ?_
  unfold reconcileTurn
  apply Op.ensures_get_bind
  cases found : c.records[key]? with
  | none => exact Runs.refl c
  | some r =>
    have stored : c.records[r.key]? = some r := by
      rw [idle.consistent.keyed key r found]
      exact found
    refine Op.ensures_ite (fun due => ?_) fun _ => ?_
    · have pending : r.state = .recallPending := by
        have both := (Bool.and_eq_true _ _ ▸ due).1
        exact of_decide_eq_true (Bool.and_eq_true _ _ ▸ both).1
      exact runs_countedTransition hP stored (by rw [pending]; rfl) (.inr (.inr (.inl rfl))) own
        countRevocation_stats
    · unfold activateDue
      refine Op.ensures_trans ?_
      refine Op.ensures_ite (fun opens => ?_) fun _ => ?_
      · have committed : r.state = .committed :=
          of_decide_eq_true (Bool.and_eq_true _ _ ▸ opens).1
        apply Op.ensures_bind
        refine (runs_transition (hP .quiet trivial) stored (by rw [committed]; rfl)
          (.inl ⟨committed, rfl⟩) (hP _ ⟨rfl, own⟩)).mono ?_
        rintro (e | ⟨moved, attempt⟩) c₁ ⟨runs, there⟩
        · exact ⟨runs, fun _ res => absurd res (by simp)⟩
        · refine ⟨runs, fun a res => ?_⟩
          obtain rfl := Except.ok.inj res
          obtain ⟨-, stored₁⟩ := there idle moved attempt rfl
          exact runs_endDue hP now own stored₁
      · refine ⟨Runs.refl c, fun a res => ?_⟩
        obtain rfl := Except.ok.inj res
        exact runs_endDue hP now own stored

/-- A live hold is released. -/
theorem runs_releaseHold (now : Timestamp) (id : HoldId) (reason : Text) :
    Op.Within (Runs P) (releaseHold now id reason) := by
  intro c
  by_cases live : ∃ h, c.holds[id]? = some h ∧ h.released = false
  · exact Runs.one (hP (.releaseHold now id reason) trivial) ⟨live, rfl⟩
  · unfold releaseHold
    apply Op.ensures_get_bind
    cases found : c.holds[id]? with
    | none => exact Runs.refl c
    | some hold =>
      refine Op.ensures_ite (fun _ => Runs.refl c) fun held => ?_
      exact absurd ⟨hold, found, by simpa using held⟩ live

/-- `reconcile_locked`. -/
theorem within_reconcile (now : Timestamp) : Op.Within (Runs P) (reconcile now) := by
  unfold reconcile
  refine Op.within_get_bind fun c => ?_
  have turns := Op.within_each
    (within_reconcileTurn hP now (internalContext_attempt c "time reconciliation")) (c.dueWork now)
  refine Op.within_bind turns (fun _ => ?_) c
  refine Op.within_bind Op.within_get fun _ => ?_
  exact Op.within_each (fun _ => runs_releaseHold hP now _ _) _

/-- The loops that release holds. -/
theorem within_fenceHolds (now : Timestamp) (reason : Text) (picks : HoldRecord → Bool) :
    Op.Within (Runs P) (fenceHolds now reason picks) := by
  unfold fenceHolds
  refine Op.within_bind Op.within_get fun _ => ?_
  exact Op.within_each
    (fun _ => Op.within_discard (Op.within_attempt (runs_releaseHold hP now _ _))) _

/-- `ensure_claimant_locked`. -/
theorem within_ensureClaimant (claimant : ClaimantId) (generation : ClaimantGeneration)
    (now : Timestamp) (own : P (.claimant { claimant, generation, at' := now })) :
    Op.Within (Runs P) (ensureClaimant claimant generation now) := by
  intro c
  unfold ensureClaimant
  refine Op.ensures_refuseIf_bind (fun named => ?_) fun _ => Runs.refl c
  apply Op.ensures_get_bind
  have registers : ∀ c₁, (∀ known ∈ c.claimants[claimant]?, known < generation) →
      Appended (.claimantRegistration { claimant, generation, at' := now }) c c₁ →
      Runs P c { c₁ with claimants := c₁.claimants.insert claimant generation } :=
    fun c₁ newer appended => .one own ⟨named, newer, c₁, appended, rfl⟩
  cases known : c.claimants[claimant]? with
  | none =>
    refine ensures_appended_discard (hP .quiet trivial) fun c₁ appended => ?_
    apply Op.ensures_modify
    exact registers c₁ (by simp [known]) appended
  | some registered =>
    refine Op.ensures_ite (fun _ => Runs.refl c) fun _ => ?_
    refine Op.ensures_ite (fun newer => ?_) fun _ => Runs.refl c
    refine ensures_appended_discard (hP .quiet trivial) fun c₁ appended => ?_
    apply Op.ensures_modify_bind
    have first := registers c₁ (by simpa [known] using newer) appended
    exact (within_fenceHolds hP now _ _ _).mono fun _ _ later => first.trans later

end

/-! ## What time reconciliation leaves alone -/

/-- Attempts, fences, policies and the incarnation are the same, and what was stored still is. -/
structure Framed (c c' : Coordinator) : Prop where
  attempts : c'.attempts = c.attempts
  attemptOrder : c'.attemptOrder = c.attemptOrder
  fencedBoots : c'.fencedBoots = c.fencedBoots
  fencedClaimants : c'.fencedClaimants = c.fencedClaimants
  policies : c'.policies = c.policies
  incarnation : c'.incarnation = c.incarnation
  stopping : c'.stopping = c.stopping
  config : c'.config = c.config
  currentGeneration : c'.currentGeneration = c.currentGeneration
  retired : c'.retired = c.retired
  stored : ∀ (k : ReservationKey) (r : ReservationRecord), c.records[k]? = some r →
    ∃ s, c'.records[k]? = some s

instance : IsPreorder Coordinator Framed where
  refl _ := ⟨rfl, rfl, rfl, rfl, rfl, rfl, rfl, rfl, rfl, rfl, fun _ r h => ⟨r, h⟩⟩
  trans a b c h h' := by
    refine ⟨h'.attempts.trans h.attempts, h'.attemptOrder.trans h.attemptOrder,
      h'.fencedBoots.trans h.fencedBoots, h'.fencedClaimants.trans h.fencedClaimants,
      h'.policies.trans h.policies, h'.incarnation.trans h.incarnation,
      h'.stopping.trans h.stopping, h'.config.trans h.config,
      h'.currentGeneration.trans h.currentGeneration, h'.retired.trans h.retired, ?_⟩
    intro k r there
    obtain ⟨s, there'⟩ := h.stored k r there
    exact h'.stored k s there'

theorem framed_moveRecord (c : Coordinator) (r next : ReservationRecord) (y : CapacityIndex) :
    Framed c ((c.moveRecord r next).withIndex y) := by
  obtain ⟨a, e, q, l, n, shape⟩ := replaced_shape c r next y
  change Framed c (c.replaced r next y)
  rw [shape]
  refine ⟨rfl, rfl, rfl, rfl, rfl, rfl, rfl, rfl, rfl, rfl, fun k s there => ?_⟩
  change ∃ t, (c.records.insert next.key next)[k]? = some t
  rw [Map.get_insert]
  split
  · exact ⟨next, rfl⟩
  · exact ⟨s, there⟩

theorem framed_logged (c : Coordinator) (d : DurableRecord) (faults : List Bool) :
    Framed c (c.logged d faults) :=
  ⟨rfl, rfl, rfl, rfl, rfl, rfl, rfl, rfl, rfl, rfl, fun _ r h => ⟨r, h⟩⟩

/-- The moves of time reconciliation, and the registration of a claimant. -/
def Prepares : Move → Prop
  | .claimant _ => True
  | m => Clocked m

theorem framed_prepares {c c' : Coordinator} {m : Move} (idle : Idle c) (h : Prepares m)
    (takes : m.Takes c c') : Framed c c' := by
  cases m with
  | quiet =>
    obtain ⟨faults, stats, rfl⟩ := takes
    exact ⟨rfl, rfl, rfl, rfl, rfl, rfl, rfl, rfl, rfl, rfl, fun _ r h => ⟨r, h⟩⟩
  | claimant registration =>
    obtain ⟨-, -, c₁, appended, rfl⟩ := takes
    obtain ⟨faults, rfl⟩ := appended.shape
    exact ⟨rfl, rfl, rfl, rfl, rfl, rfl, rfl, rfl, rfl, rfl, fun _ r h => ⟨r, h⟩⟩
  | transition r target now reason context retained =>
    obtain ⟨faults, y, -, left, -⟩ := takes_transition idle takes
    have unretained : retained = false := h.1
    rw [left, unretained]
    exact IsTrans.trans _ _ _ (framed_logged c _ faults) (framed_moveRecord _ r _ y)
  | releaseHold now id reason =>
    obtain ⟨-, rfl⟩ := takes
    obtain ⟨holds, y, left, -, -⟩ := holdsOnly_releaseHold idle.consistent.index now id reason
    rw [left]
    exact ⟨rfl, rfl, rfl, rfl, rfl, rfl, rfl, rfl, rfl, rfl, fun _ r h => ⟨r, h⟩⟩
  | _ => exact absurd h (by simp [Prepares, Clocked])

theorem Runs.framed {c c' : Coordinator} (idle : Idle c) (h : Runs Prepares c c') : Framed c c' :=
  ((h idle).2.relates_idle idle fun _ _ _ idle own takes => framed_prepares idle own takes).2

section

variable (hP : ∀ m, Settling m → P m)

include hP

/-! ## Archival and compaction -/

/-- `release_terminal_history_locked`. -/
theorem within_releaseTerminalHistory (now : Timestamp) :
    Op.Within (Runs P) (releaseTerminalHistory now) := by
  unfold releaseTerminalHistory
  refine Op.within_get_bind fun c => ?_
  dsimp only
  refine Op.ensures_ite (fun some => ?_) fun _ => Runs.refl c
  refine ensures_appended_discard (hP .quiet trivial) fun c₁ appended => ?_
  exact Runs.one (hP (.retire now) trivial) ⟨some, c₁, appended, rfl⟩

/-- `compact_locked`: the snapshot, and the rotation if the snapshot has been written. -/
theorem within_compact : Op.Within (Runs P) compact := by
  unfold compact
  refine Op.within_get_bind fun c => ?_
  apply Op.ensures_bind
  apply Op.ensures_discard
  refine (ensures_onStore (Store.ensures_writeSnapshot (encode c.snapshotState) c.store)).mono ?_
  rintro (e | sequence) _ ⟨s, rfl, spec⟩
  · obtain ⟨faults, rfl⟩ := spec
    exact FaultsOnly.runs (hP .quiet trivial) ⟨faults, rfl⟩
  · obtain ⟨fits, faults, rfl⟩ := spec
    have snapped : Runs P c (c.withStore (c.store.withSnapshot (encode c.snapshotState) faults)) :=
      .one (hP .snapshot trivial) ⟨fits, faults, rfl⟩
    refine (ensures_onStore (Store.ensures_rotateJournal _)).mono ?_
    rintro _ _ ⟨s, rfl, ⟨journalOpen, journalBytes, faults', rfl, -⟩ | ⟨-, faults', rfl⟩⟩
    · exact snapped.trans (.one (hP .rotate trivial)
        ⟨rfl, journalOpen, journalBytes, faults', rfl⟩)
    · exact snapped.trans (FaultsOnly.runs (hP .quiet trivial) ⟨faults', rfl⟩)

/-- What both commits do last. -/
theorem within_settle (now : Timestamp) : Op.Within (Runs P) (settle now) := by
  unfold settle compactIfDue
  refine Op.within_bind (within_releaseTerminalHistory hP now) fun _ => ?_
  exact Op.within_get_bind fun c =>
    Op.ensures_ite (fun _ => within_compact hP c) fun _ => Runs.refl c

end

section

/-! ## Applicability -/

/-- A record is marked as wanted: it was before, or it is now. -/
def Remarked (r : ReservationRecord) (applicability : Applicability) (c c' : Coordinator) : Prop :=
  c'.records = c.records ∧ r.applicability = applicability ∨ ∃ reason now sequence,
    c'.records = c.records.insert r.key (r.marked applicability reason now sequence)

/-- `mark_applicability_locked` on a stored record, to the letter. -/
theorem runs_markApplicability_exact (quiet : P .quiet) {c : Coordinator} {r : ReservationRecord}
    (stored : c.records[r.key]? = some r) (applicability : Applicability)
    (reason : ApplicabilityReason) (now : Timestamp) (own : P (.mark r applicability reason now))
    (evidence : applicability = .current → c.evidenceProblem r = none) :
    Op.Ensures (markApplicability r applicability reason now) c fun result c' => Runs P c c' ∧
      (Idle c → result.toBool = true →
        (c'.records = c.records ∧ r.applicability = applicability ∧
          r.applicabilityReason = reason) ∨
        ∃ sequence, c'.records =
          c.records.insert r.key (r.marked applicability reason now sequence)) := by
  by_cases idle : Idle c
  · unfold markApplicability
    refine Op.ensures_ite (fun same => ⟨Runs.refl c, fun _ _ => .inl ⟨rfl, ?_⟩⟩) fun other => ?_
    · exact ⟨of_decide_eq_true (Bool.and_eq_true_iff.mp same).1,
        of_decide_eq_true (Bool.and_eq_true_iff.mp same).2⟩
    apply Op.ensures_bind
    refine (ensures_appendRecord _ c).mono ?_
    rintro (e | sequence) c₁ spec
    · exact ⟨FaultsOnly.runs quiet spec, fun _ no => nomatch no⟩
    · obtain ⟨rfl, appended⟩ := spec
      have changes : ¬ (r.applicability = applicability ∧ r.applicabilityReason = reason) := by
        rintro ⟨rfl, rfl⟩
        exact other (by simp)
      have takes : (Move.mark r applicability reason now).Takes c
          ((applyMark r applicability reason now (c.store.lastSequence + 1)).exec c₁).2 := by
        obtain ⟨faults, rfl⟩ := appended.shape
        exact ⟨stored, changes, evidence, _, appended, rfl⟩
      refine ⟨.one own takes, fun _ _ => .inr ?_⟩
      obtain ⟨faults, y, -, left, -⟩ := takes_mark idle takes
      refine ⟨c.store.lastSequence + 1, ?_⟩
      rw [left]
      exact moveRecord_records (c.logged _ faults) r _
  · exact ⟨fun h => absurd h idle, fun h => absurd h idle⟩

/-- `mark_applicability_locked` on a stored record. -/
theorem runs_markApplicability (quiet : P .quiet) {c : Coordinator} {r : ReservationRecord}
    (stored : c.records[r.key]? = some r) (applicability : Applicability)
    (reason : ApplicabilityReason) (now : Timestamp) (own : P (.mark r applicability reason now))
    (evidence : applicability = .current → c.evidenceProblem r = none) :
    Op.Ensures (markApplicability r applicability reason now) c fun result c' => Runs P c c' ∧
      (Idle c → result.toBool = true → Remarked r applicability c c') := by
  refine (runs_markApplicability_exact quiet stored applicability reason now own evidence).mono ?_
  rintro result c' ⟨runs, marks⟩
  refine ⟨runs, fun idle done => ?_⟩
  rcases marks idle done with ⟨same, was, -⟩ | ⟨sequence, stamped⟩
  · exact .inl ⟨same, was⟩
  · exact .inr ⟨reason, now, sequence, stamped⟩

/-! ## Overcommitment -/

theorem within_recordOvercommit (quiet : P .quiet) (own : ∀ m, P (.overcommit m))
    (mutation : OvercommitMutation) : Op.Within (Runs P) (recordOvercommit mutation) := by
  intro c
  unfold recordOvercommit
  refine ensures_appended_discard quiet fun c₁ appended => ?_
  exact Runs.one (own mutation) ⟨c₁, appended, rfl⟩

theorem within_detectOvercommit (quiet : P .quiet) (own : ∀ m, P (.overcommit m))
    (resource : ResourceName) (now : Timestamp) :
    Op.Within (Runs P) (detectOvercommit resource now) := by
  unfold detectOvercommit
  refine Op.within_get_bind fun c => ?_
  cases c.ledger[resource]? with
  | none => exact Runs.refl c
  | some entry =>
    refine Op.ensures_ite (fun _ => within_recordOvercommit quiet own _ c) fun _ => ?_
    exact Op.ensures_ite (fun _ => within_recordOvercommit quiet own _ c) fun _ => Runs.refl c

end

/-! ## Suspensions -/

theorem Evaluation.start {c : Coordinator} (h : Idle c) : Evaluation c c where
  shape := ⟨c.index, c.suspended, rfl⟩
  wf := h.consistent.index
  able := ⟨by simp [h.suspended], by simp [h.suspended], by simp [h.suspended]⟩
  has e := by simp [h.suspended]

/-- More entries are suspended. -/
theorem Evaluation.suspend {c e e' : Coordinator} (h : Evaluation c e) {held : List IndexEntry}
    {y : CapacityIndex} (moved : Suspended e held e' y)
    (single : held.Pairwise fun a b => a.identity ≠ b.identity)
    (there : ∀ s ∈ held, e.index.Has s) : Evaluation c e' := by
  have able := h.able.suspended h.wf moved there single
  obtain ⟨rfl, wf, has⟩ := moved
  obtain ⟨⟨index, suspended, rfl⟩, -, -, whole⟩ := h
  refine ⟨⟨y, suspended ++ held, rfl⟩, wf, able, fun s => (whole s).trans ?_⟩
  change _ ↔ y.Has s ∨ s ∈ suspended ++ held
  rw [has s, List.mem_append]
  constructor
  · rintro (in_index | out)
    · by_cases mem : s ∈ held
      · exact .inr (.inr mem)
      · exact .inl ⟨in_index, mem⟩
    · exact .inr (.inl out)
  · rintro (⟨in_index, -⟩ | out | mem)
    · exact .inl in_index
    · exact .inr out
    · exact .inl (there s mem)

/-- The entries of one generation are suspended. -/
theorem Evaluation.ensures_suspend {c e : Coordinator} (h : Evaluation c e)
    (r : ReservationRecord) : Op.Ensures (Coordinator.suspend r) e fun res e' => res = .ok () ∧
      Evaluation c e' ∧ ∀ s ∈ e'.suspended, s ∈ e.suspended ∨
        s.kind = .reservation ∧ s.id = r.id ∧ s.holderGeneration = r.generation := by
  refine (Coordinator.ensures_suspend h.wf r).mono ?_
  rintro res e' ⟨rfl, held, y, moved, single, mem⟩
  refine ⟨rfl, h.suspend moved single fun s hs => ((mem s).mp hs).1, fun s hs => ?_⟩
  rw [moved.state] at hs
  rcases List.mem_append.mp hs with hs | hs
  · exact .inl hs
  · obtain ⟨-, owns, generation⟩ := (mem s).mp hs
    exact .inr ⟨owns.1, owns.2, generation⟩

/-- The entries of one hold are suspended. -/
theorem Evaluation.ensures_suspendHold {c e : Coordinator} (h : Evaluation c e) (id : HoldId) :
    Op.Ensures (suspendHold id) e fun res e' => res = .ok () ∧
      Evaluation c e' ∧ ∀ s ∈ e'.suspended, s ∈ e.suspended ∨ s.kind = .hold ∧ s.id = id := by
  refine (Coordinator.ensures_suspendHold h.wf id).mono ?_
  rintro res e' ⟨rfl, held, y, moved, single, mem⟩
  refine ⟨rfl, h.suspend moved single fun s hs => ((mem s).mp hs).1, fun s hs => ?_⟩
  rw [moved.state] at hs
  rcases List.mem_append.mp hs with hs | hs
  · exact .inl hs
  · obtain ⟨-, kind, same⟩ := (mem s).mp hs
    exact .inr ⟨kind, same⟩

/-- Moves have led to a state of which `e` is an evaluation. -/
def Evaluated (P : Move → Prop) (c e : Coordinator) : Prop :=
  ∃ d, Idle d ∧ Moves (fun _ m => P m) c d ∧ Evaluation d e

theorem Evaluation.evaluated {c e : Coordinator} (idle : Idle c) (h : Evaluation c e) :
    Evaluated P c e := ⟨c, idle, .refl c, h⟩

theorem Runs.evaluated {c c' : Coordinator} (idle : Idle c) (h : Runs P c c') : Evaluated P c c' :=
  ⟨c', (h idle).1, (h idle).2, .start (h idle).1⟩

/-- The same, where `P` also looks at the state a move is made in. -/
def EvaluatedAt (P : Coordinator → Move → Prop) (c e : Coordinator) : Prop :=
  ∃ d, Idle d ∧ Moves P c d ∧ Evaluation d e

theorem RunsAt.evaluated {P : Coordinator → Move → Prop} {c c' : Coordinator} (idle : Idle c)
    (h : RunsAt P c c') : EvaluatedAt P c c' := ⟨c', (h idle).1, (h idle).2, .start (h idle).1⟩

theorem Evaluation.evaluatedAt {P : Coordinator → Move → Prop} {c e : Coordinator} (idle : Idle c)
    (h : Evaluation c e) : EvaluatedAt P c e := ⟨c, idle, .refl c, h⟩

/-- Moves before an evaluation. -/
theorem Runs.then_evaluated {c d e : Coordinator} (idle : Idle c) (h : Runs P c d)
    (next : Evaluated P d e) : Evaluated P c e := by
  obtain ⟨d', idle', moves, evaluation⟩ := next
  exact ⟨d', idle', (h idle).2.trans moves, evaluation⟩

/-- A store call has failed in the middle of an evaluation. -/
theorem Evaluation.faultsOnly (quiet : P .quiet) {c e e' : Coordinator} (idle : Idle c)
    (h : Evaluation c e) (faults : FaultsOnly e e') : Evaluated P c e' := by
  obtain ⟨faults, rfl⟩ := faults
  obtain ⟨⟨index, suspended, rfl⟩, wf, able, has⟩ := h
  have runs : Runs P c { c with store := { c.store with faults } } :=
    .one quiet ⟨faults, c.stats, rfl⟩
  refine ⟨_, (runs idle).1, (runs idle).2, ⟨index, suspended, rfl⟩, wf, ?_, has⟩
  exact ⟨able.valid, able.single, able.absent⟩

theorem exec_lift {α : Type} (x : Except Error α) (c : Coordinator) :
    (Op.lift x : Method α).exec c = (x, c) := by
  cases x <;> rfl

/-- Nothing is suspended, so nothing is put back. -/
theorem exec_restore_nothing {c : Coordinator} (h : c.suspended = []) :
    restore.exec c = (.ok (), c) := by
  unfold restore
  rw [Op.exec_get_bind, h, Op.exec_modify_bind]
  change (Except.ok (), ({ c with suspended := [] } : Coordinator)) = _
  rw [← h]

/-- The run of a suspension: its body, and then what puts the rest back. -/
theorem exec_withSuspension {α : Type} (body : Method α) (c : Coordinator) :
    (withSuspension body).exec c = match restore.exec (body.exec c).2 with
      | (.ok _, d) => ((body.exec c).1, d)
      | (.error e, d) => (.error e, d) := by
  unfold withSuspension
  rw [Op.exec_bind, Op.exec_attempt]
  dsimp only
  rw [Op.exec_bind]
  rcases restore.exec (body.exec c).2 with ⟨_ | _, d⟩
  · rfl
  · exact exec_lift _ d

/-- **Suspension rule**: what is still suspended at the end of the body is put back, and what does
not concern the index stays. -/
theorem ensures_withSuspension_post (reindexed : P .reindexed) {α : Type} {body : Method α}
    {c : Coordinator} {Q : Except Error α → Coordinator → Prop}
    (stable : ∀ r e index suspended, Q r e → Q r (e.evaluating index suspended))
    (h : Idle c → Op.Ensures body c fun r e => Evaluated P c e ∧ Q r e) :
    Op.Ensures (withSuspension body) c fun r c' => Runs P c c' ∧ (Idle c → Q r c') := by
  by_cases idle : Idle c
  · unfold withSuspension
    apply Op.ensures_bind
    apply Op.ensures_attempt
    refine (h idle).mono ?_
    rintro result e ⟨⟨d, dIdle, moves, evaluation⟩, post⟩
    apply Op.ensures_bind
    refine (ensures_restore evaluation.wf evaluation.able).mono ?_
    rintro _ c' ⟨rfl, y, rfl, wf, has⟩
    apply Op.ensures_lift
    refine ⟨?_, fun _ => stable result e y [] post⟩
    obtain ⟨⟨index, suspended, rfl⟩, -, -, whole⟩ := evaluation
    have before : Runs P c d := fun _ => ⟨dIdle, moves⟩
    refine before.trans (.one reindexed ⟨y, ?_, wf, fun f => (has f).trans (whole f).symm⟩)
    unfold withIndex
    rw [← dIdle.suspended]
  · exact ⟨fun not => absurd not idle, fun not => absurd not idle⟩

/-- The suspension rule without a postcondition. -/
theorem ensures_withSuspension (reindexed : P .reindexed) {α : Type} {body : Method α}
    {c : Coordinator} (h : Idle c → Op.Ensures body c fun _ e => Evaluated P c e) :
    Op.Ensures (withSuspension body) c fun _ c' => Runs P c c' :=
  (ensures_withSuspension_post (Q := fun _ _ => True) reindexed (fun _ _ _ _ _ => trivial)
    fun idle => (h idle).mono fun _ _ evaluated => ⟨evaluated, trivial⟩).mono fun _ _ h => h.1

/-- The store takes the record. -/
def appends (c : Coordinator) (d : DurableRecord) : Bool := ((append d).exec c).1.toBool

/-- The number of an appended record is the predicted one. -/
theorem ensures_appendPredicted (d : DurableRecord) (c : Coordinator) :
    Op.Ensures (appendPredicted d) c fun r c' => match r with
      | .ok sequence => sequence = c.store.lastSequence + 1 ∧ Appended d c c' ∧ c.appends d = true
      | .error _ => FaultsOnly c c' ∧ c.appends d = false := by
  unfold appendPredicted appends
  apply Op.ensures_get_bind
  apply Op.ensures_bind
  rcases run : (append d).exec c with ⟨e | sequence, c₁⟩
  · exact .of_exec run ⟨(ensures_appendRecord d c).of_run run, rfl⟩
  · refine .of_exec run ?_
    obtain ⟨rfl, appended⟩ := (ensures_appendRecord d c).of_run run
    refine Op.ensures_refuseIf_bind (fun _ => ?_) fun other => ?_
    · exact ⟨rfl, appended, rfl⟩
    · exact absurd other (by simp [predictedSequence])

/-- What is appended looks at the store only. -/
theorem Evaluation.appends {c e : Coordinator} (h : Evaluation c e) (d : DurableRecord) :
    e.appends d = c.appends d := by
  obtain ⟨⟨index, suspended, rfl⟩, -, -, -⟩ := h
  rfl

/-! ## Revalidation -/

/-- The binding on which the revalidation of a record commits, if it does. -/
def revalidates (c : Coordinator) (r : ReservationRecord) : Option ResolvedBinding :=
  match c.resolveBinding r.terms with
  | .error _ => none
  | .ok binding =>
    let e := ((suspend r).exec c).2
    if (e.assess r.terms binding (e.revalidationPolicy r)).outcome = .committable then some binding
    else none

/-- A successor on the binding has taken the place of a record. -/
def SucceededOn (r : ReservationRecord) (binding : ResolvedBinding) (c c' : Coordinator) : Prop :=
  ∃ (now : Timestamp) (context : RequestContext) (provenance : Provenance),
    c'.records = (c.records.insert r.key (revalidatedForm r now provenance)).insert
      (c.revalidatedSuccessor r binding now context).key
      (c.revalidatedSuccessor r binding now context)

/-- A successor has taken the place of a record, if its revalidation commits. -/
def Revalidated (r : ReservationRecord) (c c' : Coordinator) : Prop :=
  match c.revalidates r with
  | none => c'.records = c.records
  | some binding => SucceededOn r binding c c'

/-- The binding on which the refresh loop commits a successor of a record that is out of date. -/
def revalidatesAt (autoRevalidation : Bool) (c : Coordinator) (r : ReservationRecord) :
    Option ResolvedBinding :=
  if autoRevalidation && (c.policyFor r.authority.policy).1.autoRevalidateOnGenerationChange then
    c.revalidates r
  else none

/-- The moves of the turn of the refresh loop that finds the state `c`: the record is marked by its
evidence, or it is revalidated. What a revalidation has superseded may be marked too. -/
def TurnMakes (autoRevalidation : Bool) (c : Coordinator) (key : ReservationKey) : Move → Prop
  | .quiet | .reindexed => True
  | .mark r applicability reason _ => r.key = key ∧ (isTerminal r.state = true ∨
      c.records[key]? = some r ∧ match c.evidenceProblem r with
        | none => applicability = .current ∧ reason = .current
        | some problem => applicability = .revalidationRequired ∧ reason = problem ∧
            revalidatesAt autoRevalidation c r = none)
  | .revalidate r binding _ _ => c.records[key]? = some r ∧ c.evidenceProblem r ≠ none ∧
      revalidatesAt autoRevalidation c r = some binding
  | _ => False

/-- The turns of the refresh loop, with the states they find. -/
def refreshTurns (now : Timestamp) (autoRevalidation : Bool) :
    List ReservationKey → Coordinator → List (Coordinator × ReservationKey)
  | [], _ => []
  | key :: keys, c => (c, key) ::
      refreshTurns now autoRevalidation keys ((refreshTurn now autoRevalidation key).exec c).2

/-- The moves of a refresh that starts in `c`. -/
def RefreshMakes (now : Timestamp) (autoRevalidation : Bool) (c : Coordinator) (m : Move) : Prop :=
  ∃ turn ∈ refreshTurns now autoRevalidation c.liveKeys c, TurnMakes autoRevalidation turn.1 turn.2 m

/-- What a turn of the refresh loop leaves of the records. -/
inductive Turned (autoRevalidation : Bool) (key : ReservationKey) (c c' : Coordinator) : Prop
  | absent (gone : c.records[key]? = none) (records : c'.records = c.records)
  | current (r : ReservationRecord) (stored : c.records[key]? = some r)
      (sound : c.evidenceProblem r = none) (remarked : Remarked r .current c c')
  | outdated (r : ReservationRecord) (stored : c.records[key]? = some r)
      (problem : c.evidenceProblem r ≠ none) (remarked : Remarked r .revalidationRequired c c')
  | left (r : ReservationRecord) (stored : c.records[key]? = some r)
      (problem : c.evidenceProblem r ≠ none) (auto : autoRevalidation = true)
      (policy : (c.policyFor r.authority.policy).1.autoRevalidateOnGenerationChange = true)
      (fails : c.revalidates r = none) (marked : r.applicability = .current)
      (records : c'.records = c.records)
  | succeeded (r : ReservationRecord) (stored : c.records[key]? = some r)
      (problem : c.evidenceProblem r ≠ none) (auto : autoRevalidation = true)
      (policy : (c.policyFor r.authority.policy).1.autoRevalidateOnGenerationChange = true)
      (binding : ResolvedBinding) (commits : c.revalidates r = some binding) (d : Coordinator)
      (successor : SucceededOn r binding c d)
      (rest : c'.records = d.records ∨ ∃ s, d.records[r.key]? = some s ∧
        Remarked s .revalidationRequired d c')

/-- What is stored under a key, if anything, is live. -/
def LiveAt (c : Coordinator) (key : ReservationKey) : Prop :=
  ∀ r, c.records[key]? = some r → isTerminal r.state = false

/-- The state of a commit is not terminal. -/
theorem committedState_live (now : Timestamp) (window : Interval) :
    isTerminal (committedState now window) = false := by
  unfold committedState
  split <;> rfl

/-- The key of a record is that of no successor of it. -/
theorem revalidatedSuccessor_key (c : Coordinator) (r : ReservationRecord)
    (binding : ResolvedBinding) (now : Timestamp) (context : RequestContext) :
    (c.revalidatedSuccessor r binding now context).key ≠ r.key := by
  intro same
  have generation : r.generation + 1 = r.generation := congrArg ReservationKey.generation same
  have value := congrArg Fin.val generation
  rw [Fin.val_add, show ((1 : Word 64) : Nat) = 1 from rfl] at value
  have bound := r.generation.isLt
  omega

theorem Remarked.elsewhere {r : ReservationRecord} {applicability : Applicability}
    {c c' : Coordinator} (h : Remarked r applicability c c') {key : ReservationKey}
    (other : key ≠ r.key) : c'.records[key]? = c.records[key]? := by
  rcases h with ⟨same, -⟩ | ⟨reason, now, sequence, records⟩
  · rw [same]
  · rw [records, Map.get_insert_ne other]

/-- A turn leaves a live successor under another key, or nothing new. -/
theorem Turned.elsewhere {autoRevalidation : Bool} {key : ReservationKey} {c c' : Coordinator}
    (keyed : ∀ (k : ReservationKey) (r : ReservationRecord), c.records[k]? = some r → r.key = k)
    (h : Turned autoRevalidation key c c') {k : ReservationKey} (other : k ≠ key) :
    c'.records[k]? = c.records[k]? ∨ ∃ r binding now context, c.records[key]? = some r ∧
      c.evidenceProblem r ≠ none ∧
      (c.policyFor r.authority.policy).1.autoRevalidateOnGenerationChange = true ∧
      c.revalidates r = some binding ∧
      c'.records[k]? = some (c.revalidatedSuccessor r binding now context) := by
  cases h with
  | absent gone records => exact .inl (by rw [records])
  | current r stored sound remarked =>
    obtain rfl := keyed key r stored
    exact .inl (remarked.elsewhere other)
  | outdated r stored problem remarked =>
    obtain rfl := keyed key r stored
    exact .inl (remarked.elsewhere other)
  | left r stored problem auto policy fails marked records => exact .inl (by rw [records])
  | succeeded r stored problem auto policy binding commits d successor rest =>
    obtain rfl := keyed key r stored
    obtain ⟨now, context, provenance, records⟩ := successor
    have after : c'.records[k]? = d.records[k]? := by
      rcases rest with same | ⟨s, there, remarked⟩
      · rw [same]
      · refine remarked.elsewhere fun own => other ?_
        rw [own]
        rw [records, Map.get_insert_ne (revalidatedSuccessor_key c r binding now context).symm,
          Map.get_insert, if_pos rfl] at there
        rw [← Option.some.inj there]
        rfl
    rw [after, records, Map.get_insert]
    by_cases own : k = (c.revalidatedSuccessor r binding now context).key
    · rw [if_pos own]
      exact .inr ⟨r, binding, now, context, stored, problem, policy, commits, rfl⟩
    · rw [if_neg own, Map.get_insert_ne other]
      exact .inl rfl

theorem Turned.liveAt {autoRevalidation : Bool} {key : ReservationKey} {c c' : Coordinator}
    (keyed : ∀ (k : ReservationKey) (r : ReservationRecord), c.records[k]? = some r → r.key = k)
    (h : Turned autoRevalidation key c c') {k : ReservationKey} (other : k ≠ key)
    (live : LiveAt c k) : LiveAt c' k := by
  intro s there
  rcases h.elsewhere keyed other with same | ⟨r, binding, now, context, -, -, -, -, successor⟩
  · exact live s (same ▸ there)
  · obtain rfl := Option.some.inj (successor.symm.trans there)
    exact committedState_live now r.terms.interval

section

/-- The durable record of the revalidation of a record. -/
def revalidation (c : Coordinator) (r : ReservationRecord) (binding : ResolvedBinding)
    (now : Timestamp) (context : RequestContext) : DurableRecord :=
  .reservationAmend (c.revalidationMutation r (c.revalidatedSuccessor r binding now context) now)

omit P in
/-- The entries of the record alone are taken out, and the terms are assessed without them. -/
theorem exec_suspend {c : Coordinator} (idle : Idle c) (r : ReservationRecord) :
    ∃ e, (suspend r).exec c = (.ok (), e) ∧ Evaluation c e ∧
      (∀ s ∈ e.suspended, s.kind = .reservation ∧ s.id = r.id ∧
        s.holderGeneration = r.generation) ∧
      ∀ binding, c.resolveBinding r.terms = .ok binding → c.revalidates r =
        if (e.assess r.terms binding (e.revalidationPolicy r)).outcome = .committable
        then some binding else none := by
  rcases run : (suspend r).exec c with ⟨result, e⟩
  obtain ⟨rfl, evaluation, out⟩ := ((Evaluation.start idle).ensures_suspend r).of_run run
  refine ⟨e, rfl, evaluation, fun s hs => ?_, fun binding resolved => ?_⟩
  · refine (out s hs).resolve_left fun before => ?_
    rw [idle.suspended] at before
    exact absurd before List.not_mem_nil
  · unfold revalidates
    rw [resolved, run]

omit P in
/-- What is still suspended is put back, and nothing else happens. -/
theorem Evaluated.exec_restore {Q : Move → Prop} (reindexed : Q .reindexed) {c e : Coordinator}
    (h : Evaluated Q c e) : ∃ c', restore.exec e = (.ok (), c') ∧ Runs Q c c' := by
  obtain ⟨d, dIdle, moves, evaluation⟩ := h
  rcases run : restore.exec e with ⟨result, c'⟩
  obtain ⟨rfl, y, rfl, wf, has⟩ := (ensures_restore evaluation.wf evaluation.able).of_run run
  obtain ⟨⟨index, suspended, rfl⟩, -, -, whole⟩ := evaluation
  have before : Runs Q c d := fun _ => ⟨dIdle, moves⟩
  refine ⟨_, rfl, before.trans (.one reindexed ⟨y, ?_, wf, fun f => (has f).trans (whole f).symm⟩)⟩
  unfold withIndex
  rw [← dIdle.suspended]

omit P in
/-- A commit that fails under suspension has changed nothing, and one that succeeds is a move. -/
theorem ensures_commitRevalidation {c e : Coordinator} (idle : Idle c) {r : ReservationRecord}
    (stored : c.records[r.key]? = some r) (live : isTerminal r.state = false) {now : Timestamp}
    {context : RequestContext} {binding : ResolvedBinding}
    (resolved : c.resolveBinding r.terms = .ok binding) (evaluation : Evaluation c e)
    (alone : ∀ s ∈ e.suspended, s.kind = .reservation ∧ s.id = r.id ∧
      s.holderGeneration = r.generation)
    (closes : (e.assess r.terms binding (e.revalidationPolicy r)).outcome = .committable) :
    Op.Ensures (commitRevalidation r (e.revalidatedSuccessor r binding now context) now context) e
      fun result e' => (result = .ok () ∧ c.appends (c.revalidation r binding now context) = true ∧
          (Move.revalidate r binding now context).Takes c e') ∨
        (∃ err, result = .error err) ∧ c.appends (c.revalidation r binding now context) = false ∧
          FaultsOnly e e' := by
  have same : .reservationAmend
      (e.revalidationMutation r (e.revalidatedSuccessor r binding now context) now) =
        c.revalidation r binding now context := by
    obtain ⟨⟨index, suspended, rfl⟩, -, -, -⟩ := evaluation
    rfl
  unfold commitRevalidation
  apply Op.ensures_get_bind
  apply Op.ensures_bind
  apply Op.ensures_discard
  dsimp only
  refine (ensures_appendPredicted _ e).mono ?_
  rintro (err | sequence) e₁ spec
  · obtain ⟨faults, refused⟩ := spec
    rw [same, evaluation.appends] at refused
    exact .inr ⟨⟨err, rfl⟩, refused, faults⟩
  · obtain ⟨-, appended, accepted⟩ := spec
    rw [same, evaluation.appends] at accepted
    have sound : (e.revalidatedSuccessor r binding now context).Sound :=
      sound_of_bound (resolveBinding_bound idle.consistent resolved) rfl
        (idle.consistent.sound _ _ stored).amount
    have there : e₁.records[r.key]? = some r := by
      obtain ⟨-, faults, rfl⟩ := appended
      obtain ⟨⟨index, suspended, rfl⟩, -, -, -⟩ := evaluation
      exact stored
    have entering : (e.revalidationMutation r (e.revalidatedSuccessor r binding now context)
        now).record.Sound := sound
    have projected := ensures_projectRevalidation ((evaluation.consistent idle.consistent).appended
      appended) there now entering (e.makeProvenance context e.predictedSequence now)
    rcases run : (projectRevalidation r now
      (e.revalidationMutation r (e.revalidatedSuccessor r binding now context) now)
      (e.makeProvenance context e.predictedSequence now)).exec e₁ with ⟨result, e'⟩
    obtain ⟨rfl, -⟩ := projected.of_run run
    refine .of_exec run (.inl ⟨rfl, accepted, resolved, stored, live, e, evaluation, closes, alone, e₁,
      appended, ?_⟩)
    rw [run]

omit P in
/-- **A revalidation** of a stored live record commits if its terms close and the store takes the
successor; otherwise nothing happens. -/
theorem ensures_autoRevalidate {c : Coordinator} (idle : Idle c) {r : ReservationRecord}
    (stored : c.records[r.key]? = some r) (live : isTerminal r.state = false) (now : Timestamp)
    (context : RequestContext) :
    Op.Ensures (autoRevalidate r now context) c fun result c' => match c.revalidates r with
      | none => result = .ok () ∧ Runs Idling c c'
      | some binding => (result = .ok () ∧ c.appends (c.revalidation r binding now context) = true ∧
          (Move.revalidate r binding now context).Takes c c') ∨
        (∃ err, result = .error err) ∧ c.appends (c.revalidation r binding now context) = false ∧
          Runs Idling c c' := by
  unfold autoRevalidate
  apply Op.ensures_get_bind
  cases resolved : c.resolveBinding r.terms with
  | error e =>
    have none : c.revalidates r = none := by
      unfold revalidates
      rw [resolved]
    rw [none]
    exact ⟨rfl, Runs.refl c⟩
  | ok binding =>
    obtain ⟨e, suspends, evaluation, alone, commits⟩ := exec_suspend idle r
    have commits := commits binding resolved
    unfold Op.Ensures
    dsimp only
    rw [exec_withSuspension, Op.exec_bind_of_ok suspends, Op.exec_get_bind, Op.exec_ite]
    by_cases closes : (e.assess r.terms binding (e.revalidationPolicy r)).outcome = .committable
    · rw [if_pos closes]
      rw [if_pos closes] at commits
      rw [commits]
      dsimp only
      rcases run : (commitRevalidation r (e.revalidatedSuccessor r binding now context) now
        context).exec e with ⟨result, e'⟩
      rcases (ensures_commitRevalidation idle stored live resolved evaluation alone closes).of_run run
        with ⟨rfl, accepted, takes⟩ | ⟨⟨err, rfl⟩, refused, faults⟩
      · rw [exec_restore_nothing (idle_takes idle takes).suspended]
        exact .inl ⟨rfl, accepted, takes⟩
      · obtain ⟨c', back, runs⟩ := Evaluated.exec_restore trivial
          (evaluation.faultsOnly (P := Idling) trivial idle faults)
        rw [back]
        exact .inr ⟨⟨err, rfl⟩, refused, runs⟩
    · rw [if_neg closes]
      rw [if_neg closes] at commits
      rw [commits]
      obtain ⟨c', back, runs⟩ := Evaluated.exec_restore (Q := Idling) trivial (evaluation.evaluated idle)
      rw [Op.exec_pure, back]
      exact ⟨rfl, runs⟩

omit P in
theorem succeededOn_takes {c c' : Coordinator} (idle : Idle c) {r : ReservationRecord}
    {binding : ResolvedBinding} {now : Timestamp} {context : RequestContext}
    (takes : (Move.revalidate r binding now context).Takes c c') : SucceededOn r binding c c' := by
  obtain ⟨faults, y, -, left, -⟩ := takes_revalidate idle takes
  refine ⟨now, context, c.makeProvenance context c.predictedSequence now, ?_⟩
  rw [left]
  unfold afterRevalidation
  exact (recallRecord_records _ _).trans
    (congrArg (fun m : Map ReservationKey ReservationRecord => m.insert _ _)
      (moveRecord_records (c.logged _ faults) r _))

/-- `auto_revalidate_record_locked` on a stored live record. -/
theorem runs_autoRevalidate (quiet : P .quiet) (reindexed : P .reindexed) {c : Coordinator}
    {r : ReservationRecord} (stored : c.records[r.key]? = some r)
    (live : isTerminal r.state = false) (now : Timestamp) (context : RequestContext)
    (own : ∀ binding, c.revalidates r = some binding → P (.revalidate r binding now context)) :
    Op.Ensures (autoRevalidate r now context) c fun result c' => Runs P c c' ∧
      (Idle c → result.toBool = true → Revalidated r c c') := by
  by_cases idle : Idle c
  · have rests : ∀ {d}, Runs Idling c d → Runs P c d := fun runs idle =>
      ⟨(runs idle).1, (runs idle).2.mono fun _ m idles => by
        cases m <;> first | exact quiet | exact reindexed | exact idles.elim⟩
    refine (ensures_autoRevalidate idle stored live now context).mono fun result c' ends => ?_
    unfold Revalidated
    cases commits : c.revalidates r with
    | none =>
      rw [commits] at ends
      exact ⟨rests ends.2, fun _ _ => (ends.2.unaffected idle).records⟩
    | some binding =>
      rw [commits] at ends
      rcases ends with ⟨rfl, -, takes⟩ | ⟨⟨err, rfl⟩, -, runs⟩
      · exact ⟨.one (own binding commits) takes, fun _ _ => succeededOn_takes idle takes⟩
      · exact ⟨rests runs, fun _ no => nomatch no⟩
  · exact ⟨fun no => absurd no idle, fun no => absurd no idle⟩

/-- The body of the refresh loop. -/
theorem runs_refreshTurn (now : Timestamp) (autoRevalidation : Bool) {key : ReservationKey}
    {c : Coordinator} (own : ∀ m, TurnMakes autoRevalidation c key m → P m) (live : LiveAt c key) :
    Op.Ensures (refreshTurn now autoRevalidation key) c fun result c' => Runs P c c' ∧
      (Idle c → result.toBool = true → Turned autoRevalidation key c c') := by
  by_cases idle : Idle c
  · unfold refreshTurn
    apply Op.ensures_get_bind
    cases found : c.records[key]? with
    | none => exact ⟨Runs.refl c, fun _ _ => .absent found rfl⟩
    | some r =>
      have named := idle.consistent.keyed key r found
      subst named
      dsimp only
      cases problem : c.evidenceProblem r with
      | none =>
        refine Op.ensures_ite (fun _ => ?_) fun already =>
          ⟨Runs.refl c, fun _ _ => .current r found problem (.inl ⟨rfl, not_not.mp already⟩)⟩
        apply Op.ensures_discard
        have made : TurnMakes autoRevalidation c r.key (.mark r .current .current now) := by
          refine ⟨rfl, .inr ⟨found, ?_⟩⟩
          rw [problem]
          exact ⟨rfl, rfl⟩
        refine (runs_markApplicability (own .quiet trivial) found .current .current now
          (own _ made) fun _ => problem).mono ?_
        rintro (e | marked) c' ⟨runs, remarked⟩
        · exact ⟨runs, fun _ no => nomatch no⟩
        · exact ⟨runs, fun _ _ => .current r found problem (remarked idle rfl)⟩
      | some reason =>
        have lost : c.evidenceProblem r ≠ none := by rw [problem]; exact Option.some_ne_none _
        have outdated : ∀ (d : Coordinator) (s : ReservationRecord), d.records[s.key]? = some s →
            TurnMakes autoRevalidation c r.key (.mark s .revalidationRequired reason now) →
            Op.Ensures (markOutdated s reason now) d fun result c' => Runs P d c' ∧
              (Idle d → result.toBool = true → Remarked s .revalidationRequired d c') := by
          intro d s stored made
          unfold markOutdated
          apply Op.ensures_discard
          refine (runs_markApplicability (own .quiet trivial) stored .revalidationRequired reason now
            (own _ made) fun no => absurd no (by decide)).mono ?_
          rintro (e | marked) c' ⟨runs, remarked⟩
          · exact ⟨runs, fun _ no => nomatch no⟩
          · exact ⟨runs, fun dIdle _ => remarked dIdle rfl⟩
        have marks : (revalidatesAt autoRevalidation c r = none) →
            TurnMakes autoRevalidation c r.key (.mark r .revalidationRequired reason now) := by
          intro none
          refine ⟨rfl, .inr ⟨found, ?_⟩⟩
          rw [problem]
          exact ⟨rfl, rfl, none⟩
        refine Op.ensures_ite (fun both => ?_) fun neither => (outdated c r found (marks
          (if_neg neither))).mono fun _ _ h => ⟨h.1, fun _ ok => .outdated r found lost (h.2 idle ok)⟩
        have permitted : revalidatesAt autoRevalidation c r = c.revalidates r := if_pos both
        obtain ⟨auto, policy⟩ := Bool.and_eq_true_iff.mp both
        apply Op.ensures_bind
        refine (runs_autoRevalidate (own .quiet trivial) (own .reindexed trivial) found
          (live r found) now _ fun binding commits =>
            own _ ⟨found, lost, permitted.trans commits⟩).mono ?_
        rintro (e | ⟨⟩) c₁ ⟨runs, revalidated⟩
        · exact ⟨runs, fun _ no => nomatch no⟩
        have idle₁ := (runs idle).1
        have revalidated := revalidated idle rfl
        unfold Revalidated at revalidated
        apply Op.ensures_get_bind
        cases commits : c.revalidates r with
        | none =>
          rw [commits] at revalidated
          dsimp only at revalidated
          rw [revalidated, found]
          dsimp only [Option.getD_some]
          refine Op.ensures_ite (fun _ => ?_) fun marked => ⟨runs, fun _ _ =>
            .left r found lost auto policy commits (not_not.mp marked) revalidated⟩
          refine (outdated c₁ r (revalidated ▸ found) (marks (permitted.trans commits))).mono ?_
          rintro _ c' ⟨runs', remarked⟩
          refine ⟨runs.trans runs', fun _ ok => .outdated r found lost ?_⟩
          have after := remarked idle₁ ok
          unfold Remarked at after ⊢
          rwa [revalidated] at after
        | some binding =>
          rw [commits] at revalidated
          dsimp only at revalidated
          obtain ⟨s, stored, named, ended⟩ : ∃ s, c₁.records[r.key]? = some s ∧ s.key = r.key ∧
              isTerminal s.state = true := by
            obtain ⟨at', by', provenance, records⟩ := revalidated
            rw [records, Map.get_insert_ne (revalidatedSuccessor_key c r binding at' by').symm,
              Map.get_insert, if_pos rfl]
            exact ⟨_, rfl, rfl, rfl⟩
          rw [stored]
          dsimp only [Option.getD_some]
          refine Op.ensures_ite (fun _ => ?_) fun _ => ⟨runs, fun _ _ =>
            .succeeded r found lost auto policy binding commits c₁ revalidated (.inl rfl)⟩
          refine (outdated c₁ s (named.symm ▸ stored) ⟨named, .inl ended⟩).mono ?_
          rintro _ c' ⟨runs', remarked⟩
          exact ⟨runs.trans runs', fun _ ok => .succeeded r found lost auto policy binding commits
            c₁ revalidated (.inr ⟨s, stored, remarked idle₁ ok⟩)⟩
  · exact ⟨fun h => absurd h idle, fun h => absurd h idle⟩

theorem runs_refreshTurns (now : Timestamp) (autoRevalidation : Bool) :
    ∀ {keys : List ReservationKey} {c : Coordinator},
      (∀ turn ∈ refreshTurns now autoRevalidation keys c, ∀ m,
        TurnMakes autoRevalidation turn.1 turn.2 m → P m) → keys.Nodup →
      (∀ k ∈ keys, LiveAt c k) →
      Op.Ensures (Op.each (refreshTurn now autoRevalidation) keys) c fun _ c' => Runs P c c'
  | [], c, _, _, _ => Runs.refl c
  | key :: keys, c, own, distinct, live => by
    obtain ⟨fresh, distinct⟩ := List.nodup_cons.mp distinct
    obtain ⟨here, later⟩ := List.forall_mem_cons.mp own
    refine runs_intro fun idle => ?_
    apply Op.ensures_bind
    rcases turn : (refreshTurn now autoRevalidation key).exec c with ⟨result, c₁⟩
    refine .of_exec turn ?_
    obtain ⟨runs, turned⟩ := (runs_refreshTurn now autoRevalidation here
      (live key List.mem_cons_self)).of_run turn
    rcases result with e | ⟨⟩
    · exact runs
    · rw [turn] at later
      have turned : Turned autoRevalidation key c c₁ := turned idle rfl
      refine (runs_refreshTurns now autoRevalidation later distinct fun k mem => ?_).mono
        fun _ _ later => runs.trans later
      exact turned.liveAt idle.consistent.keyed (fun same => fresh (same ▸ mem))
        (live k (List.mem_cons_of_mem _ mem))

theorem nodup_liveKeys (c : Coordinator) : c.liveKeys.Nodup := by
  unfold liveKeys
  refine List.pairwise_map.mpr ?_
  exact (Map.pairwise_toList c.records).filter _

theorem mem_liveKeys {c : Coordinator} {key : ReservationKey} : key ∈ c.liveKeys ↔
    ∃ r, c.records[key]? = some r ∧ isTerminal r.state = false := by
  unfold liveKeys
  constructor
  · intro mem
    obtain ⟨⟨k, r⟩, listed, rfl⟩ := List.mem_map.mp mem
    obtain ⟨stored, alive⟩ := List.mem_filter.mp listed
    exact ⟨r, Map.mem_toList.mp stored, by simpa using alive⟩
  · rintro ⟨r, stored, alive⟩
    exact List.mem_map.mpr ⟨(key, r),
      List.mem_filter.mpr ⟨Map.mem_toList.mpr stored, by simpa using alive⟩, rfl⟩

theorem liveAt_liveKeys {c : Coordinator} {key : ReservationKey} (mem : key ∈ c.liveKeys) :
    LiveAt c key := by
  intro r there
  obtain ⟨s, stored, alive⟩ := mem_liveKeys.mp mem
  rw [stored] at there
  obtain rfl := Option.some.inj there
  exact alive

/-- `refresh_applicability_locked`. -/
theorem ensures_refreshApplicability (now : Timestamp) (autoRevalidation : Bool) {c : Coordinator}
    (own : ∀ m, RefreshMakes now autoRevalidation c m → P m) :
    Op.Ensures (refreshApplicability now autoRevalidation) c fun _ c' => Runs P c c' := by
  unfold refreshApplicability
  apply Op.ensures_get_bind
  exact runs_refreshTurns now autoRevalidation (fun turn mem m made => own m ⟨turn, mem, made⟩)
    (nodup_liveKeys c) fun _ => liveAt_liveKeys

theorem TurnMakes.housekeeping {c : Coordinator} {key : ReservationKey} {autoRevalidation : Bool}
    {m : Move} (h : TurnMakes autoRevalidation c key m) : Housekeeping m := by
  cases m <;> first | exact h.elim | trivial

theorem RefreshMakes.housekeeping {c : Coordinator} {now : Timestamp} {autoRevalidation : Bool}
    {m : Move} (h : RefreshMakes now autoRevalidation c m) : Housekeeping m := by
  obtain ⟨turn, -, made⟩ := h
  exact made.housekeeping

theorem within_refreshApplicability (hP : ∀ m, Housekeeping m → P m) (now : Timestamp)
    (autoRevalidation : Bool) : Op.Within (Runs P) (refreshApplicability now autoRevalidation) :=
  fun _ => ensures_refreshApplicability now autoRevalidation fun m made => hP m made.housekeeping

end

end

end Coordinator

end Brf
