import Brf.RecordLaws
import Brf.StoreLaws
import Brf.System

/-!
# The moves of the coordinator

Everything an operation does to the state, as a list of atomic moves. `Move` names them with their
arguments, and `Move.Takes m c c'` says that `m` leads from `c` to `c'`: under which guards, which
record it makes durable, and what it then does in memory.

* A move that makes a record durable and projects it into memory is one move: the operations never
  stop between the two.
* The three moves `ledger`, `pathTable` and `policyTable` are the ingestions whose record was not
  made durable: memory has changed and the journal has not.
* An evaluation takes entries out of the index (`Evaluation`). If it ends in a commit, it belongs to
  the move of that commit, otherwise it is the move `reindexed`, which puts all of them back.
* `Moves P` are the sequences of moves that each satisfy `P`.
* `Request.Makes` says which moves a request may make: those of the housekeeping that every operation
  may do, and those that carry the arguments of the request.

The operations are sequences of moves: see `Housekeeping` and `Requests`.
-/

namespace Brf

open Brf.Lib

namespace Coordinator

/-- `append_locked` has made a record durable. -/
def Appended (d : DurableRecord) (c c' : Coordinator) : Prop :=
  c.store.Writable (encodeRecord d) ∧
    ∃ faults, c' = { c with store := c.store.logged d.kind (encodeRecord d) faults }

/-- An evaluation that started in `c₀` has moved entries from the index to the suspended ones. -/
structure Evaluation (c₀ c : Coordinator) : Prop where
  shape : ∃ index suspended, c = { c₀ with index, suspended }
  wf : c.index.Wf
  able : Restorable c
  has : ∀ e, c₀.index.Has e ↔ c.index.Has e ∨ e ∈ c.suspended

/-- A caller's transition retains its attempt. -/
def retain (c : Coordinator) (retained : Bool) (attempt : AttemptRecord) : Coordinator :=
  if retained then c.rememberAttempt attempt else c

/-- The attempt a transition hands to its caller. -/
def handedAttempt (r : ReservationRecord) (target : ReservationState) (now : Timestamp)
    (context : RequestContext) (sequence : DurableSequence) : AttemptRecord :=
  if context.attempt.isNil then {} else transitionAttempt r target now context sequence

/-- What `create_locked` has established when it starts its evaluation. -/
structure CreatePlan.Admitted (p : CreatePlan) (c : Coordinator) : Prop where
  context : c.validateContext p.context true = .ok ()
  terms : validateTerms p.terms = .ok ()
  claimant : p.context.claimant.isNil = true ∨ p.context.claimant = p.terms.claimant
  policy : p.policy = (c.policyFor p.terms.policy).1
  limits : checkLimits p.policy p.terms p.now = .ok ()
  series : p.seriesId =
    if p.terms.recurrence.enabled then deriveSeriesId p.terms.claimant p.context.attempt 2 else 0
  unused : c.attempts[p.context.attempt]? = none
  fresh : c.currentGeneration[p.id]? = none
  freshMembers : p.terms.recurrence.enabled = true →
    ∀ id ∈ memberIds p.seriesId p.terms.recurrence.count.val, c.currentGeneration[id]? = none
  binding : c.resolveBinding p.terms = .ok p.binding
  intervals : expandSeries p.terms.interval p.terms.recurrence p.policy.maxSeriesMembers.val =
    .ok p.intervals

/-- What `amend_locked` has established when it starts its evaluation. -/
structure AmendPlan.Admitted (p : AmendPlan) (c : Coordinator) : Prop where
  context : c.validateContext p.context true = .ok ()
  terms : validateTerms p.terms = .ok ()
  policy : p.policy = (c.policyFor p.terms.policy).1
  unused : c.attempts[p.context.attempt]? = none
  predecessor : c.records[p.target]? = some p.predecessor
  binding : c.resolveBinding p.terms = .ok p.binding
  intervals : expandSeries p.terms.interval p.terms.recurrence p.policy.maxSeriesMembers.val =
    .ok p.intervals

/-- What `acquire_hold` has established about the hold it grants. -/
structure Granted (h : HoldRecord) (terms : ReservationTerms) (binding : ResolvedBinding)
    (c : Coordinator) : Prop where
  valid : validateTerms terms = .ok ()
  bound : c.resolveBinding terms = .ok binding
  closes : (c.assess terms binding (c.policyFor terms.policy).1).outcome = .committable
  claimant : h.claimant = terms.claimant
  resources : h.resources = binding.resources.map ResourceRef.resource
  interval : h.interval = terms.interval
  amount : h.amount = terms.amount
  live : h.released = false

/-- A target that a transition may have. -/
def LegalTarget (r : ReservationRecord) (target : ReservationState) : Prop :=
  (r.state = .committed ∧ target = .active) ∨ target = .released ∨ target = .revoked ∨
    target = .expired

/-- The atomic changes of the state. -/
inductive Move where
  | quiet
  | shutdown
  | snapshot
  | rotate
  | boot (boot : Identity128) (now : Timestamp)
  | claimant (registration : ClaimantMutation)
  | refusal (attempt : AttemptMutation)
  | transition (r : ReservationRecord) (target : ReservationState) (now : Timestamp) (reason : Text)
      (context : RequestContext) (retained : Bool)
  | pendRecall (r : ReservationRecord) (now : Timestamp) (reason : Text) (context : RequestContext)
      (effect : Timestamp) (grace : Duration)
  | mark (r : ReservationRecord) (applicability : Applicability) (reason : ApplicabilityReason)
      (now : Timestamp)
  | create (p : CreatePlan) (victims : List IndexEntry)
  | amend (p : AmendPlan) (superseded successors : List ReservationRecord)
      (mutation : ReservationMutation)
  | revalidate (r : ReservationRecord) (binding : ResolvedBinding) (now : Timestamp)
      (context : RequestContext)
  | reindexed
  | releaseHold (now : Timestamp) (id : HoldId) (reason : Text)
  | grantHold (h : HoldRecord) (terms : ReservationTerms) (binding : ResolvedBinding)
  | refuseHold (h : HoldRecord)
  | capacity (now : Timestamp) (snapshot : CapacitySnapshot) (withdrawals : List ResourceName)
      (applied : List ResourceCapacity) (withdrawn : List ResourceName)
  | sawCapacity (snapshot : CapacitySnapshot)
  | ledger (ledger : CapacityLedger)
  | paths (now : Timestamp) (snapshot : PathAuthoritySnapshot) (changed : List PathName)
  | pathTable (paths : PathTable)
  | policy (now : Timestamp) (record : PolicyRecord)
  | policyTable (policies : PolicyRegistry)
  | fence (fence : FenceMutation)
  | overcommit (mutation : OvercommitMutation)
  | retire (now : Timestamp)

/-- `m` leads from `c` to `c'`. -/
def Move.Takes (m : Move) (c c' : Coordinator) : Prop :=
  match m with
  | .quiet => ∃ faults stats, c' = { c with store := { c.store with faults }, stats }
  | .shutdown => c' = { c with stopping := true }
  | .snapshot => (encode c.snapshotState).length ≤ maxSnapshotPayload ∧ ∃ faults,
      c' = { c with store := c.store.withSnapshot (encode c.snapshotState) faults }
  | .rotate =>
      c.store.disk.snapshot = some ⟨c.store.lastSequence, encode c.snapshotState⟩ ∧
      ∃ journalOpen journalBytes faults,
        c' = { c with store := c.store.rotated journalOpen journalBytes faults }
  | .boot identity now => c.incarnation.epoch.val + 1 < 2 ^ 64 ∧ ∃ c₁,
      Appended (.fabricBoot
        { epoch := c.incarnation.epoch + 1, coordinatorBoot := identity, at' := now }) c c₁ ∧
      c' = { c₁ with incarnation := { epoch := c.incarnation.epoch + 1, boot := identity } }
  | .claimant registration =>
      registration.claimant.isNil = false ∧
      (∀ known ∈ c.claimants[registration.claimant]?, known < registration.generation) ∧
      ∃ c₁, Appended (.claimantRegistration registration) c c₁ ∧ c' = { c₁ with
        claimants := c₁.claimants.insert registration.claimant registration.generation }
  | .refusal outcome => outcome.resultSequence = 0 ∧ c.attempts[outcome.attempt]? = none ∧
      ∃ c₁, Appended (.attemptOutcome outcome) c c₁ ∧
        c' = c₁.rememberAttempt { outcome with resultSequence := c₁.store.lastSequence }
  | .transition r target now reason context retained =>
      c.records[r.key]? = some r ∧ isTerminal r.state = false ∧
      LegalTarget r target ∧ ∃ c₁,
        Appended (.reservationState (transitionMutation r target now reason context 0)) c c₁ ∧
        c' = ((applyTransition r target now reason context 0 c₁.store.lastSequence).exec c₁).2.retain
          retained (handedAttempt r target now context c₁.store.lastSequence)
  | .pendRecall r now reason context effect grace =>
      c.records[r.key]? = some r ∧ r.consumes = true ∧ now < effect ∧
      effect ≤ r.terms.interval.stop ∧ ∃ c₁,
        Appended (.reservationState
          (transitionMutation r .recallPending now reason context effect)) c c₁ ∧
        c' = ((do
            let moved ← applyTransition r .recallPending now reason context effect
              c₁.store.lastSequence
            setGrace moved grace : Method ReservationRecord).exec c₁).2.retain
          true (handedAttempt r .recallPending now context c₁.store.lastSequence)
  | .mark r applicability reason now =>
      c.records[r.key]? = some r ∧
      ¬ (r.applicability = applicability ∧ r.applicabilityReason = reason) ∧
      (applicability = .current → c.evidenceProblem r = none) ∧ ∃ c₁,
        Appended (.reservationApplicability
          { id := r.id, generation := r.generation, applicability, reason, at' := now }) c c₁ ∧
        c' = ((applyMark r applicability reason now c₁.store.lastSequence).exec c₁).2
  | .create p victims => p.Admitted c ∧ ∃ e, Evaluation c e ∧
      (∃ evaluations, e.evaluate p.terms p.binding p.policy p.intervals = .ok evaluations) ∧
      (∀ v ∈ victims, ∃ r, c.findRecord v.id v.holderGeneration = some r ∧ r.consumes = true) ∧
      (∀ id ∈ p.holds, ∃ h, c.holds[id]? = some h ∧ h.released = false) ∧
      (∀ s ∈ e.suspended, (s.kind = .hold ∧ s.id ∈ p.holds) ∨
        s.kind = .reservation ∧ ∃ v ∈ victims, v.id = s.id ∧
          v.holderGeneration = s.holderGeneration) ∧ ∃ e₁,
        Appended (.reservationCommit (e.createMutation p victims)) e e₁ ∧
        c' = ((projectCreate p (e.createMutation p victims) e₁.store.lastSequence).exec e₁).2
  | .amend p superseded successors mutation => p.Admitted c ∧
      c.supersededBy p = .ok superseded ∧ ∃ e, Evaluation c e ∧
      (∃ evaluations, e.evaluate p.terms p.binding p.policy p.intervals = .ok evaluations) ∧
      e.amendMutation p superseded = .ok (mutation, successors) ∧
      (∀ s ∈ e.suspended, s.kind = .reservation ∧
        ∃ r ∈ superseded, r.id = s.id ∧ r.generation = s.holderGeneration) ∧ ∃ e₁,
        Appended (.reservationAmend mutation) e e₁ ∧
        c' = ((projectAmend p superseded successors mutation
          (e.makeProvenance p.context e.predictedSequence p.now)
          e₁.store.lastSequence).exec e₁).2
  | .revalidate r binding now context => c.resolveBinding r.terms = .ok binding ∧
      c.records[r.key]? = some r ∧ isTerminal r.state = false ∧ ∃ e, Evaluation c e ∧
      (e.assess r.terms binding (e.revalidationPolicy r)).outcome = .committable ∧
      (∀ s ∈ e.suspended, s.kind = .reservation ∧ s.id = r.id ∧
        s.holderGeneration = r.generation) ∧ ∃ e₁,
        Appended (.reservationAmend
          (e.revalidationMutation r (e.revalidatedSuccessor r binding now context) now)) e e₁ ∧
        c' = ((projectRevalidation r now
          (e.revalidationMutation r (e.revalidatedSuccessor r binding now context) now)
          (e.makeProvenance context e.predictedSequence now)).exec e₁).2
  | .reindexed => ∃ y, c' = c.withIndex y ∧ y.Wf ∧ ∀ e, y.Has e ↔ c.index.Has e
  | .releaseHold now id reason =>
      (∃ h, c.holds[id]? = some h ∧ h.released = false) ∧
      c' = ((Coordinator.releaseHold now id reason).exec c).2
  | .grantHold h terms binding => Granted h terms binding c ∧ ∃ c₁,
      (Op.each (indexHold h) h.resources).exec c = (.ok (), c₁) ∧
      c' = { c₁ with holds := c₁.holds.insert h.id h }
  | .refuseHold h => ∃ e, (Op.each (indexHold h) h.resources).exec c = (.error e, c')
  | .capacity now stated withdrawals applied withdrawn =>
      c.checkCapacitySnapshot stated = .ok () ∧ c.oldCapacitySnapshot stated = false ∧
      hasAdjacentEqual (sorted (stated.resources.map ResourceCapacity.resource)) = false ∧
      ∃ c₁ c₂ c₃, (applyCapacities stated.id now stated.resources).exec c = (.ok applied, c₁) ∧
        (withdrawAll now withdrawals).exec c₁ = (.ok withdrawn, c₂) ∧
        Appended (.capacitySnapshot
          { snapshot := { stated with ingestedAt := now }, withdrawals := withdrawn }) c₂ c₃ ∧
        c' = c₃.sawCapacity stated
  | .sawCapacity stated => c' = c.sawCapacity stated
  | .ledger table => (∀ (n : ResourceName) (e : CapacityEntry), table[n]? = some e →
      e.capacity.resource = n ∧ n.empty = false) ∧ c' = { c with ledger := table }
  | .paths now stated changed => c.checkPathSnapshot stated = .ok () ∧ ∃ c₁ c₂,
      (applyPaths stated.id now stated.paths).exec c = (.ok changed, c₁) ∧
      Appended (.pathSnapshot { stated with ingestedAt := now }) c₁ c₂ ∧
      c' = c₂.sawPaths stated
  | .pathTable table => c' = { c with paths := table }
  | .policy now record => ∃ policies c₁, c.policies.apply record = .ok (true, policies) ∧
      Appended (.policyRecord { record with ingestedAt := now }) { c with policies } c₁ ∧ c' = c₁
  | .policyTable registry => c' = { c with policies := registry }
  | .fence record => ∃ c₁, Appended (.fence record) c c₁ ∧ c' = c₁.recallFence record
  | .overcommit mutation => ∃ c₁, Appended (.overcommit mutation) c c₁ ∧ c' = { c₁ with
      overcommit := c₁.overcommit.insert mutation.resource
        { mutation, resolved := mutation.resolved } }
  | .retire now => c.retireBatch ≠ [] ∧ ∃ c₁,
      Appended (.retire
        { ids := c.retireBatch.map ReservationKey.id
          generations := c.retireBatch.map ReservationKey.generation
          at' := now }) c c₁ ∧
      c' = c.retireBatch.foldl (retireRecord now) c₁

/-- A sequence of moves, each of which satisfies `P`. -/
inductive Moves (P : Coordinator → Move → Prop) : Coordinator → Coordinator → Prop
  | refl (c) : Moves P c c
  | step {c c₁ c₂} (m : Move) : Moves P c c₁ → P c₁ m → m.Takes c₁ c₂ → Moves P c c₂

namespace Moves

variable {P Q : Coordinator → Move → Prop} {a b c : Coordinator}

theorem one (m : Move) (h : P a m) (takes : m.Takes a b) : Moves P a b :=
  .step m (.refl a) h takes

theorem trans (h : Moves P a b) (h' : Moves P b c) : Moves P a c := by
  induction h' with
  | refl => exact h
  | step m _ hP takes ih => exact .step m ih hP takes

theorem mono (imp : ∀ c m, P c m → Q c m) (h : Moves P a b) : Moves Q a b := by
  induction h with
  | refl => exact .refl a
  | step m _ hP takes ih => exact .step m ih (imp _ _ hP) takes

/-- **Invariant rule**: what every move keeps, a sequence of moves keeps. -/
theorem invariant {I : Coordinator → Prop} (h : Moves P a b)
    (keep : ∀ c c' m, I c → P c m → m.Takes c c' → I c') (ha : I a) : I b := by
  induction h with
  | refl => exact ha
  | step m _ hP takes ih => exact keep _ _ m ih hP takes

/-- A reflexive and transitive relation that contains every move contains every sequence. -/
theorem relates {R : Coordinator → Coordinator → Prop} (h : Moves P a b) (refl : ∀ c, R c c)
    (trans : ∀ {a b c}, R a b → R b c → R a c) (move : ∀ c c' m, P c m → m.Takes c c' → R c c') :
    R a b := by
  induction h with
  | refl => exact refl a
  | step m _ hP takes ih => exact trans ih (move _ _ m hP takes)

end Moves

end Coordinator

end Brf
