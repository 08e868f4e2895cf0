import Brf.Identities

/-!
# Where stored records come from

Every stored record is one that a move has registered, or the same generation after changes of its
state.

* `Descends r r'`: the key, the terms and the authority of `r'` are those of `r`.
* `Move.Rewrites c m r r'`: one turn of the move makes `r'` of the stored record `r`, and
  `Move.Becomes` are its turns one after the other.
* `All Q c` and `Contents.All Q x`: every record of a coordinator, archive included, and every record
  that a directory registers satisfies `Q`.

Results: `becomes_takes`, and `all_takes`, `all_leaves` and `all_recover`: what does not depend on
the state of a record, and holds of every record that is registered, holds of every record.
-/

namespace Brf

open Brf.Lib

namespace Coordinator

/-- The key, the terms and the authority of a stored generation never change. -/
structure Descends (r r' : ReservationRecord) : Prop where
  key : r'.key = r.key
  terms : r'.terms = r.terms
  authority : r'.authority = r.authority

namespace Descends

variable {r s t : ReservationRecord}

theorem refl (r : ReservationRecord) : Descends r r := ⟨rfl, rfl, rfl⟩

theorem trans (h : Descends r s) (h' : Descends s t) : Descends r t :=
  ⟨h'.key.trans h.key, h'.terms.trans h.terms, h'.authority.trans h.authority⟩

theorem id (h : Descends r s) : s.id = r.id := congrArg ReservationKey.id h.key

theorem generation (h : Descends r s) : s.generation = r.generation :=
  congrArg ReservationKey.generation h.key

end Descends

/-- What one turn of a move makes of a stored record. -/
inductive Move.Rewrites (c : Coordinator) : Move → ReservationRecord → ReservationRecord → Prop
  | transition (r target now reason context retained sequence) :
      Rewrites c (.transition r target now reason context retained) r
        (c.transitioned r target now reason context 0 sequence)
  | pendRecall (r now reason context effect grace sequence) :
      Rewrites c (.pendRecall r now reason context effect grace) r
        ((c.transitioned r .recallPending now reason context effect sequence).graced grace)
  | mark (r applicability reason now sequence) :
      Rewrites c (.mark r applicability reason now) r (r.marked applicability reason now sequence)
  | preempt (p victims) {companion : StateMutation} {r : ReservationRecord} :
      companion ∈ victims.filterMap (c.preemptionCompanion p) →
      r.key = ⟨companion.id, companion.generation⟩ →
      Rewrites c (.create p victims) r (companion.applyTo r)
  | supersede (p superseded successors mutation provenance) {r s : ReservationRecord} :
      s ∈ superseded → s.key = r.key →
      Rewrites c (.amend p superseded successors mutation) r (p.supersededForm provenance r)
  | revalidate (r binding now context provenance) :
      Rewrites c (.revalidate r binding now context) r (revalidatedForm r now provenance)

theorem Move.Rewrites.descends {c : Coordinator} {m : Move} {r r' : ReservationRecord}
    (h : m.Rewrites c r r') : Descends r r' := by
  cases h with
  | transition _ target now reason context retained sequence =>
    obtain ⟨key, terms, authority⟩ := transitioned_kept c r target now reason context 0 sequence
    exact ⟨key, terms, authority⟩
  | pendRecall _ now reason context effect grace sequence =>
    obtain ⟨key, terms, authority⟩ :=
      transitioned_kept c r .recallPending now reason context effect sequence
    exact ⟨key, terms, authority⟩
  | _ => exact ⟨rfl, rfl, rfl⟩

/-- Turns one after the other. -/
abbrev Move.Becomes (m : Move) (c : Coordinator) : ReservationRecord → ReservationRecord → Prop :=
  Relation.ReflTransGen (m.Rewrites c)

theorem Move.Becomes.descends {c : Coordinator} {m : Move} {r r' : ReservationRecord}
    (h : m.Becomes c r r') : Descends r r' := by
  induction h with
  | refl => exact .refl r
  | tail _ turn ih => exact ih.trans turn.descends

/-! ## The stores of records -/

/-- Every record of `d` is one of `c` after turns of `R`. -/
def Later (R : ReservationRecord → ReservationRecord → Prop) (c d : Coordinator) : Prop :=
  ∀ (k : ReservationKey) (r' : ReservationRecord), d.records[k]? = some r' →
    ∃ r, c.records[k]? = some r ∧ Relation.ReflTransGen R r r'

section

variable {R : ReservationRecord → ReservationRecord → Prop} {c d e : Coordinator}

theorem later_same (records : d.records = c.records) : Later R c d := fun _ r' there =>
  ⟨r', records ▸ there, .refl⟩

theorem Later.trans (h : Later R c d) (h' : Later R d e) : Later R c e := by
  intro k r' there
  obtain ⟨s, there, becomes⟩ := h' k r' there
  obtain ⟨r, there, before⟩ := h k s there
  exact ⟨r, there, before.trans becomes⟩

theorem later_moveRecord {r next : ReservationRecord} (stored : c.records[r.key]? = some r)
    (turn : R r next) (named : next.key = r.key) : Later R c (c.moveRecord r next) := by
  intro k r' there
  rw [moveRecord_records, Map.get_insert] at there
  split at there
  · rename_i same
    obtain rfl := Option.some.inj there
    rw [same, named]
    exact ⟨r, stored, .single turn⟩
  · exact ⟨r', there, .refl⟩

/-- A loop over stored records. -/
theorem later_foldl_moveStored {α : Type} (next : α → ReservationRecord → ReservationRecord)
    (key : α → ReservationKey) (named : ∀ x r, (next x r).key = r.key) :
    ∀ {xs : List α} {c : Coordinator}, Keyed c →
      (∀ x ∈ xs, ∀ r : ReservationRecord, r.key = key x → R r (next x r)) →
      Later R c (xs.foldl (fun c x => moveStored (next x) c (key x)) c)
  | [], _, _, _ => later_same rfl
  | x :: xs, c, h, turns => by
    have turn : Later R c (moveStored (next x) c (key x)) ∧
        Keyed (moveStored (next x) c (key x)) := by
      unfold moveStored
      cases stored : c.records[key x]? with
      | none => exact ⟨later_same rfl, h⟩
      | some r =>
        have own := h _ r stored
        exact ⟨later_moveRecord (own ▸ stored) (turns x List.mem_cons_self r own) (named x r),
          keyed_moveRecord h r _⟩
    exact turn.1.trans (later_foldl_moveStored next key named turn.2 fun y mem =>
      turns y (List.mem_cons_of_mem _ mem))

/-- A loop of registrations. -/
theorem get_foldl_recallRecord {k : ReservationKey} {r' : ReservationRecord} :
    ∀ (rs : List ReservationRecord) {c : Coordinator},
      (rs.foldl recallRecord c).records[k]? = some r' →
        r' ∈ rs ∧ r'.key = k ∨ c.records[k]? = some r'
  | [], _, there => .inr there
  | r :: rs, c, there => by
    rcases get_foldl_recallRecord rs there with ⟨mem, named⟩ | before
    · exact .inl ⟨List.mem_cons_of_mem _ mem, named⟩
    · rw [recallRecord_records, Map.get_insert] at before
      split at before
      · rename_i same
        obtain rfl := Option.some.inj before
        exact .inl ⟨List.mem_cons_self, same.symm⟩
      · exact .inr before

end

/-! ## Every move -/

theorem later_retireRecord {R : ReservationRecord → ReservationRecord → Prop} (now : Timestamp) :
    ∀ (keys : List ReservationKey) (c : Coordinator), Later R c (keys.foldl (retireRecord now) c)
  | [], _ => later_same rfl
  | key :: keys, c => by
    have turn : Later R c (retireRecord now c key) := fun _ r' there =>
      ⟨r', retireRecord_get there, .refl⟩
    exact turn.trans (later_retireRecord now keys _)

theorem Appended.records {d : DurableRecord} {c c₁ : Coordinator} (h : Appended d c c₁) :
    c₁.records = c.records := by
  obtain ⟨faults, rfl⟩ := h.shape
  rfl

theorem foldl_putSeries_records (series : List ReservationSeries) (c : Coordinator) :
    (series.foldl putSeries c).records = c.records := by
  induction series generalizing c with
  | nil => rfl
  | cons s rest ih => exact ih _

theorem foldl_consumeHold_records (p : CreatePlan) (ids : List HoldId) (c : Coordinator) :
    (ids.foldl (consumeHold p) c).records = c.records := by
  induction ids generalizing c with
  | nil => rfl
  | cons id rest ih =>
    rw [List.foldl_cons, ih]
    unfold consumeHold
    split <;> rfl

theorem afterCreate_records (c : Coordinator) (p : CreatePlan) (mutation : ReservationMutation)
    (sequence : DurableSequence) : (c.afterCreate p mutation sequence).records =
      ((mutation.record :: mutation.members).foldl recallRecord
        (mutation.companions.foldl companionDone c)).records := by
  unfold afterCreate
  dsimp only
  rw [foldl_consumeHold_records]
  exact foldl_putSeries_records _ _

theorem afterAmend_records (c : Coordinator) (p : AmendPlan)
    (superseded successors : List ReservationRecord) (mutation : ReservationMutation)
    (provenance : Provenance) (sequence : DurableSequence) :
    (c.afterAmend p superseded successors mutation provenance sequence).records =
      (successors.foldl recallRecord { superseded.foldl (supersedeDone p provenance) c with
        edges := (superseded.foldl (supersedeDone p provenance) c).edges ++
          mutation.edge.toList }).records :=
  foldl_putSeries_records _ _

/-- **Every record** after a move has been registered by it, or was there before its turns. -/
theorem becomes_takes {c c' : Coordinator} (idle : Idle c) {m : Move} (takes : m.Takes c c')
    {k : ReservationKey} {r' : ReservationRecord} (there : c'.records[k]? = some r') :
    Recollection.record r' ∈ m.recollections c ∧ r'.key = k ∨
      ∃ r, c.records[k]? = some r ∧ m.Becomes c r r' := by
  have keyed : Keyed c := idle.consistent.keyed
  have same : c'.records = c.records → ∃ r, c.records[k]? = some r ∧ m.Becomes c r r' :=
    fun records => later_same records k r' there
  cases m with
  | quiet =>
    obtain ⟨faults, stats, rfl⟩ := takes
    exact .inr (same rfl)
  | shutdown =>
    obtain rfl := takes
    exact .inr (same rfl)
  | snapshot =>
    obtain ⟨-, faults, rfl⟩ := takes
    exact .inr (same rfl)
  | rotate =>
    obtain ⟨-, journalOpen, journalBytes, faults, rfl⟩ := takes
    exact .inr (same rfl)
  | boot boot now =>
    obtain ⟨-, c₁, appended, rfl⟩ := takes
    exact .inr (same appended.records)
  | claimant registration =>
    obtain ⟨-, -, c₁, appended, rfl⟩ := takes
    exact .inr (same appended.records)
  | refusal attempt =>
    obtain ⟨-, -, c₁, appended, rfl⟩ := takes
    exact .inr (same appended.records)
  | transition r target now reason context retained =>
    have stored := takes.1
    obtain ⟨faults, y, -, left, -⟩ := takes_transition idle takes
    have turn := Move.Rewrites.transition (c := c) r target now reason context retained
      (c.store.lastSequence + 1)
    have records : c'.records = ((c.logged (.reservationState (transitionMutation r target now reason
        context 0)) faults).moveRecord r (c.transitioned r target now reason context 0
          (c.store.lastSequence + 1))).records := by
      rw [left]
      cases retained <;> rfl
    rw [records] at there
    exact .inr (later_moveRecord (c := c.logged _ faults) stored turn turn.descends.key k r' there)
  | pendRecall r now reason context effect grace =>
    have stored := takes.1
    obtain ⟨faults, y, -, left, -⟩ := takes_recall idle takes
    have turn := Move.Rewrites.pendRecall (c := c) r now reason context effect grace
      (c.store.lastSequence + 1)
    have named := (transitioned_kept c r .recallPending now reason context effect
      (c.store.lastSequence + 1)).1
    have own := turn.descends.key
    generalize c.transitioned r .recallPending now reason context effect
      (c.store.lastSequence + 1) = next at left turn named own
    rw [left] at there
    change (((c.logged _ faults).moveRecord r next).moveRecord next (next.graced grace)).records[k]?
      = some r' at there
    rw [moveRecord_records, moveRecord_records, Map.get_insert, Map.get_insert] at there
    refine .inr ?_
    split at there
    · rename_i here
      rw [← Option.some.inj there, here, own]
      exact ⟨r, stored, .single turn⟩
    · split at there
      · rename_i other here
        exact absurd (here.trans (named.trans own.symm)) other
      · exact ⟨r', there, .refl⟩
  | mark r applicability reason now =>
    have stored := takes.1
    obtain ⟨faults, y, -, left, -⟩ := takes_mark idle takes
    have turn := Move.Rewrites.mark (c := c) r applicability reason now (c.store.lastSequence + 1)
    rw [left] at there
    exact .inr (later_moveRecord (c := c.logged _ faults) stored turn rfl k r' there)
  | create p victims =>
    obtain ⟨faults, y, -, left, -⟩ := takes_create idle takes
    rw [left] at there
    change (afterCreate _ p _ _).records[k]? = some r' at there
    rw [afterCreate_records] at there
    rcases get_foldl_recallRecord _ there with ⟨mem, named⟩ | before
    · exact .inl ⟨List.mem_append_left _ (List.mem_map_of_mem mem), named⟩
    · refine .inr (later_foldl_moveStored (c := c.logged _ faults) StateMutation.applyTo
        (fun m => ⟨m.id, m.generation⟩) (fun _ _ => rfl) keyed (fun companion mem r named => ?_) k
        r' before)
      exact .preempt p victims mem named
  | amend p superseded successors mutation =>
    obtain ⟨-, faults, y, -, left, -⟩ := takes_amend idle takes
    rw [left] at there
    change (afterAmend _ p _ _ _ _ (c.store.lastSequence + 1)).records[k]? = some r' at there
    rw [afterAmend_records] at there
    rcases get_foldl_recallRecord _ there with ⟨mem, named⟩ | before
    · exact .inl ⟨List.mem_append_left _ (List.mem_map_of_mem mem), named⟩
    · exact .inr (later_foldl_moveStored (c := c.logged _ faults)
        (fun _ => p.supersededForm (c.makeProvenance p.context c.predictedSequence p.now))
        ReservationRecord.key (fun _ _ => rfl) keyed
        (fun s mem r named => .supersede p superseded successors mutation _ mem named.symm) k r'
        before)
  | revalidate r binding now context =>
    have stored := takes.2.1
    obtain ⟨faults, y, -, left, -⟩ := takes_revalidate idle takes
    rw [left] at there
    unfold afterRevalidation at there
    rcases get_foldl_recallRecord [_] there with ⟨mem, named⟩ | before
    · obtain rfl := List.mem_singleton.mp mem
      exact .inl ⟨List.mem_singleton.mpr rfl, named⟩
    · have turn := Move.Rewrites.revalidate (c := c) r binding now context
        (c.makeProvenance context c.predictedSequence now)
      exact .inr (later_moveRecord (c := c.logged _ faults) stored turn rfl k r' before)
  | reindexed =>
    obtain ⟨y, rfl, -, -⟩ := takes
    exact .inr (same rfl)
  | releaseHold now id reason =>
    obtain ⟨-, rfl⟩ := takes
    obtain ⟨holds, y, left, -, -⟩ := holdsOnly_releaseHold idle.consistent.index now id reason
    have records : ((Coordinator.releaseHold now id reason).exec c).2.records = c.records := by
      rw [left]
    exact .inr (same records)
  | grantHold hold terms binding =>
    obtain ⟨-, c₁, run, rfl⟩ := takes
    obtain ⟨holds, y, rfl, -, -⟩ := (holdsOnly_indexHolds hold idle.consistent.index).of_run run
    exact .inr (same rfl)
  | refuseHold hold =>
    obtain ⟨e, run⟩ := takes
    obtain ⟨holds, y, rfl, -, -⟩ := (holdsOnly_indexHolds hold idle.consistent.index).of_run run
    exact .inr (same rfl)
  | capacity now stated withdrawals applied withdrawn =>
    obtain ⟨-, -, -, c₁, c₂, c₃, applies, withdraws, appended, rfl⟩ := takes
    have first := (within_applyCapacities stated.id now stated.resources c).of_run applies
    have second := (within_withdrawAll now withdrawals c₁).of_run withdraws
    obtain ⟨ledger, rfl, -⟩ := first.trans second
    exact .inr (same appended.records)
  | sawCapacity stated =>
    obtain rfl := takes
    exact .inr (same rfl)
  | ledger table =>
    obtain ⟨-, rfl⟩ := takes
    exact .inr (same rfl)
  | paths now stated changed =>
    obtain ⟨-, c₁, c₂, applies, appended, rfl⟩ := takes
    obtain ⟨paths, rfl⟩ := (within_applyPaths stated.id now stated.paths c).of_run applies
    exact .inr (same appended.records)
  | pathTable table =>
    obtain rfl := takes
    exact .inr (same rfl)
  | policy now record =>
    obtain ⟨policies, c₁, -, appended, rfl⟩ := takes
    exact .inr (same appended.records)
  | policyTable registry =>
    obtain rfl := takes
    exact .inr (same rfl)
  | fence record =>
    obtain ⟨c₁, appended, rfl⟩ := takes
    exact .inr (same appended.records)
  | overcommit mutation =>
    obtain ⟨c₁, appended, rfl⟩ := takes
    exact .inr (same appended.records)
  | retire now =>
    obtain ⟨-, c₁, appended, rfl⟩ := takes
    obtain ⟨r, before, becomes⟩ := later_retireRecord now c.retireBatch c₁ k r' there
    rw [appended.records] at before
    exact .inr ⟨r, before, becomes⟩

/-! ## The tables -/

/-- The tables that are not about reservations are the same, and so is the archive. -/
structure SameTables (c d : Coordinator) : Prop where
  config : d.config = c.config
  incarnation : d.incarnation = c.incarnation
  ledger : d.ledger = c.ledger
  paths : d.paths = c.paths
  policies : d.policies = c.policies
  claimants : d.claimants = c.claimants
  overcommit : d.overcommit = c.overcommit
  retired : d.retired = c.retired

namespace SameTables

variable {a b c : Coordinator}

theorem refl (c : Coordinator) : SameTables c c := ⟨rfl, rfl, rfl, rfl, rfl, rfl, rfl, rfl⟩

theorem trans (h : SameTables a b) (h' : SameTables b c) : SameTables a c :=
  ⟨h'.config.trans h.config, h'.incarnation.trans h.incarnation, h'.ledger.trans h.ledger,
    h'.paths.trans h.paths, h'.policies.trans h.policies, h'.claimants.trans h.claimants,
    h'.overcommit.trans h.overcommit, h'.retired.trans h.retired⟩

theorem foldl {α : Type} {f : Coordinator → α → Coordinator}
    (turn : ∀ c x, SameTables c (f c x)) :
    ∀ (xs : List α) (c : Coordinator), SameTables c (xs.foldl f c)
  | [], c => refl c
  | x :: xs, c => (turn c x).trans (foldl turn xs (f c x))

end SameTables

theorem tables_moveRecord (c : Coordinator) (r next : ReservationRecord) :
    SameTables c (c.moveRecord r next) := by
  obtain ⟨a, e, q, l, n, shape⟩ := moveRecord_shape c r next
  rw [shape]
  exact ⟨rfl, rfl, rfl, rfl, rfl, rfl, rfl, rfl⟩

theorem tables_moveStored (next : ReservationRecord → ReservationRecord) (c : Coordinator)
    (key : ReservationKey) : SameTables c (moveStored next c key) := by
  unfold moveStored
  split
  · exact .refl c
  · exact tables_moveRecord c _ _

theorem tables_recallRecord (c : Coordinator) (r : ReservationRecord) :
    SameTables c (c.recallRecord r) := by
  obtain ⟨a, e, q, shape⟩ := recallRecord_shape c r
  rw [shape]
  exact ⟨rfl, rfl, rfl, rfl, rfl, rfl, rfl, rfl⟩

theorem tables_consumeHold (p : CreatePlan) (c : Coordinator) (id : HoldId) :
    SameTables c (consumeHold p c id) := by
  unfold consumeHold
  split
  · exact .refl c
  · exact ⟨rfl, rfl, rfl, rfl, rfl, rfl, rfl, rfl⟩

theorem tables_putSeries (c : Coordinator) (series : ReservationSeries) :
    SameTables c (c.putSeries series) := ⟨rfl, rfl, rfl, rfl, rfl, rfl, rfl, rfl⟩

theorem tables_rememberAttempt (c : Coordinator) (attempt : AttemptRecord) :
    SameTables c (c.rememberAttempt attempt) := ⟨rfl, rfl, rfl, rfl, rfl, rfl, rfl, rfl⟩

theorem tables_retain (c : Coordinator) (retained : Bool) (attempt : AttemptRecord) :
    SameTables c (c.retain retained attempt) := by
  cases retained with
  | false => exact .refl c
  | true => exact tables_rememberAttempt c attempt

theorem tables_afterCreate (c : Coordinator) (p : CreatePlan) (mutation : ReservationMutation)
    (sequence : DurableSequence) : SameTables c (c.afterCreate p mutation sequence) := by
  have companions := SameTables.foldl (f := companionDone) (fun d _ => tables_moveStored _ d _)
    mutation.companions c
  have records := companions.trans (SameTables.foldl tables_recallRecord
    (mutation.record :: mutation.members) _)
  have series := records.trans (SameTables.foldl tables_putSeries mutation.series.toList _)
  have attempt := series.trans (tables_rememberAttempt _ (attemptFor p.context p.fingerprint
    .committable mutation.record.key sequence p.terms.claimant p.now))
  have holds := attempt.trans (SameTables.foldl (tables_consumeHold p) p.holds _)
  exact holds.trans ⟨rfl, rfl, rfl, rfl, rfl, rfl, rfl, rfl⟩

theorem tables_afterAmend (c : Coordinator) (p : AmendPlan)
    (superseded successors : List ReservationRecord) (mutation : ReservationMutation)
    (provenance : Provenance) (sequence : DurableSequence) :
    SameTables c (c.afterAmend p superseded successors mutation provenance sequence) := by
  have moved := SameTables.foldl (f := supersedeDone p provenance)
    (fun d _ => tables_moveStored _ d _) superseded c
  have edges : SameTables (superseded.foldl (supersedeDone p provenance) c)
      { superseded.foldl (supersedeDone p provenance) c with
        edges := (superseded.foldl (supersedeDone p provenance) c).edges ++
          mutation.edge.toList } := ⟨rfl, rfl, rfl, rfl, rfl, rfl, rfl, rfl⟩
  have records := (moved.trans edges).trans (SameTables.foldl tables_recallRecord successors _)
  have series := records.trans (SameTables.foldl tables_putSeries mutation.series.toList _)
  exact series.trans ⟨rfl, rfl, rfl, rfl, rfl, rfl, rfl, rfl⟩

theorem tables_afterRevalidation (c : Coordinator) (r : ReservationRecord) (now : Timestamp)
    (mutation : ReservationMutation) (provenance : Provenance) :
    SameTables c (c.afterRevalidation r now mutation provenance) := by
  have moved := tables_moveRecord c r (revalidatedForm r now provenance)
  have edges : SameTables (c.moveRecord r (revalidatedForm r now provenance))
      { c.moveRecord r (revalidatedForm r now provenance) with
        edges := (c.moveRecord r (revalidatedForm r now provenance)).edges ++
          mutation.edge.toList } := ⟨rfl, rfl, rfl, rfl, rfl, rfl, rfl, rfl⟩
  have record := (moved.trans edges).trans (tables_recallRecord _ mutation.record)
  exact record.trans ⟨rfl, rfl, rfl, rfl, rfl, rfl, rfl, rfl⟩

/-- The state a move leads to, but for the table that the move is about. -/
def Move.exempting (m : Move) (c c' : Coordinator) : Coordinator :=
  match m with
  | .boot .. => { c' with incarnation := c.incarnation }
  | .claimant _ => { c' with claimants := c.claimants }
  | .capacity .. | .ledger _ => { c' with ledger := c.ledger }
  | .paths .. | .pathTable _ => { c' with paths := c.paths }
  | .policy .. | .policyTable _ => { c' with policies := c.policies }
  | .overcommit _ => { c' with overcommit := c.overcommit }
  | .retire _ => { c' with retired := c.retired }
  | _ => c'

theorem Appended.tables {d : DurableRecord} {c c₁ : Coordinator} (h : Appended d c c₁) :
    SameTables c c₁ := by
  obtain ⟨faults, rfl⟩ := h.shape
  exact ⟨rfl, rfl, rfl, rfl, rfl, rfl, rfl, rfl⟩

theorem tables_retireRecord (now : Timestamp) (c : Coordinator) (key : ReservationKey) :
    SameTables c { retireRecord now c key with retired := c.retired } := by
  unfold retireRecord
  split <;> exact ⟨rfl, rfl, rfl, rfl, rfl, rfl, rfl, rfl⟩

theorem tables_foldl_retireRecord (now : Timestamp) : ∀ (keys : List ReservationKey) (c : Coordinator),
    SameTables c { keys.foldl (retireRecord now) c with retired := c.retired }
  | [], _ => ⟨rfl, rfl, rfl, rfl, rfl, rfl, rfl, rfl⟩
  | key :: keys, c => by
    have first := tables_retireRecord now c key
    have rest := tables_foldl_retireRecord now keys (retireRecord now c key)
    exact ⟨rest.config.trans first.config, rest.incarnation.trans first.incarnation,
      rest.ledger.trans first.ledger, rest.paths.trans first.paths,
      rest.policies.trans first.policies, rest.claimants.trans first.claimants,
      rest.overcommit.trans first.overcommit, rfl⟩

/-- **A move** changes at most the table it is about. -/
theorem tables_takes {c c' : Coordinator} (idle : Idle c) {m : Move} (takes : m.Takes c c') :
    SameTables c (m.exempting c c') := by
  have same : ∀ (d : DurableRecord) (faults : List Bool), SameTables c (c.logged d faults) :=
    fun _ _ => ⟨rfl, rfl, rfl, rfl, rfl, rfl, rfl, rfl⟩
  have reindexed : ∀ {d : Coordinator} (y : CapacityIndex), SameTables c d →
      SameTables c (d.withIndex y) := fun y h => h.trans ⟨rfl, rfl, rfl, rfl, rfl, rfl, rfl, rfl⟩
  cases m with
  | boot boot now =>
    obtain ⟨-, c₁, appended, rfl⟩ := takes
    obtain ⟨faults, rfl⟩ := appended.shape
    exact ⟨rfl, rfl, rfl, rfl, rfl, rfl, rfl, rfl⟩
  | claimant registration =>
    obtain ⟨-, -, c₁, appended, rfl⟩ := takes
    obtain ⟨faults, rfl⟩ := appended.shape
    exact ⟨rfl, rfl, rfl, rfl, rfl, rfl, rfl, rfl⟩
  | capacity now stated withdrawals applied withdrawn =>
    obtain ⟨-, -, -, c₁, c₂, c₃, applies, withdraws, appended, rfl⟩ := takes
    have first := (within_applyCapacities stated.id now stated.resources c).of_run applies
    have second := (within_withdrawAll now withdrawals c₁).of_run withdraws
    obtain ⟨ledger, rfl, -⟩ := first.trans second
    obtain ⟨faults, rfl⟩ := appended.shape
    exact ⟨rfl, rfl, rfl, rfl, rfl, rfl, rfl, rfl⟩
  | ledger table =>
    obtain ⟨-, rfl⟩ := takes
    exact ⟨rfl, rfl, rfl, rfl, rfl, rfl, rfl, rfl⟩
  | paths now stated changed =>
    obtain ⟨-, c₁, c₂, applies, appended, rfl⟩ := takes
    obtain ⟨paths, rfl⟩ := (within_applyPaths stated.id now stated.paths c).of_run applies
    obtain ⟨faults, rfl⟩ := appended.shape
    exact ⟨rfl, rfl, rfl, rfl, rfl, rfl, rfl, rfl⟩
  | pathTable table =>
    obtain rfl := takes
    exact ⟨rfl, rfl, rfl, rfl, rfl, rfl, rfl, rfl⟩
  | policy now record =>
    obtain ⟨policies, c₁, -, appended, rfl⟩ := takes
    obtain ⟨faults, rfl⟩ := appended.shape
    exact ⟨rfl, rfl, rfl, rfl, rfl, rfl, rfl, rfl⟩
  | policyTable registry =>
    obtain rfl := takes
    exact ⟨rfl, rfl, rfl, rfl, rfl, rfl, rfl, rfl⟩
  | overcommit mutation =>
    obtain ⟨c₁, appended, rfl⟩ := takes
    obtain ⟨faults, rfl⟩ := appended.shape
    exact ⟨rfl, rfl, rfl, rfl, rfl, rfl, rfl, rfl⟩
  | retire now =>
    obtain ⟨-, c₁, appended, rfl⟩ := takes
    obtain ⟨faults, rfl⟩ := appended.shape
    exact (same _ faults).trans (tables_foldl_retireRecord now c.retireBatch (c.logged _ faults))
  | quiet =>
    obtain ⟨faults, stats, rfl⟩ := takes
    exact ⟨rfl, rfl, rfl, rfl, rfl, rfl, rfl, rfl⟩
  | shutdown =>
    obtain rfl := takes
    exact ⟨rfl, rfl, rfl, rfl, rfl, rfl, rfl, rfl⟩
  | snapshot =>
    obtain ⟨-, faults, rfl⟩ := takes
    exact ⟨rfl, rfl, rfl, rfl, rfl, rfl, rfl, rfl⟩
  | rotate =>
    obtain ⟨-, journalOpen, journalBytes, faults, rfl⟩ := takes
    exact ⟨rfl, rfl, rfl, rfl, rfl, rfl, rfl, rfl⟩
  | refusal attempt =>
    obtain ⟨-, -, c₁, appended, rfl⟩ := takes
    exact appended.tables.trans (tables_rememberAttempt c₁ _)
  | transition r target now reason context retained =>
    obtain ⟨faults, y, -, rfl, -⟩ := takes_transition idle takes
    exact (reindexed y ((same _ faults).trans (tables_moveRecord _ r _))).trans
      (tables_retain _ retained _)
  | pendRecall r now reason context effect grace =>
    obtain ⟨faults, y, -, rfl, -⟩ := takes_recall idle takes
    exact (reindexed y (((same _ faults).trans (tables_moveRecord _ r _)).trans
      (tables_moveRecord _ _ _))).trans (tables_retain _ true _)
  | mark r applicability reason now =>
    obtain ⟨faults, y, -, rfl, -⟩ := takes_mark idle takes
    exact reindexed y ((same _ faults).trans (tables_moveRecord _ r _))
  | create p victims =>
    obtain ⟨faults, y, -, rfl, -⟩ := takes_create idle takes
    exact reindexed y ((same _ faults).trans (tables_afterCreate _ p _ _))
  | amend p superseded successors mutation =>
    obtain ⟨-, faults, y, -, rfl, -⟩ := takes_amend idle takes
    exact reindexed y ((same _ faults).trans (tables_afterAmend _ p _ _ _ _
      (c.store.lastSequence + 1)))
  | revalidate r binding now context =>
    obtain ⟨faults, y, -, rfl, -⟩ := takes_revalidate idle takes
    exact reindexed y ((same _ faults).trans (tables_afterRevalidation _ r _ _ _))
  | reindexed =>
    obtain ⟨y, rfl, -, -⟩ := takes
    exact reindexed y (.refl c)
  | releaseHold now id reason =>
    obtain ⟨-, rfl⟩ := takes
    obtain ⟨holds, y, left, -, -⟩ := holdsOnly_releaseHold idle.consistent.index now id reason
    rw [left]
    exact ⟨rfl, rfl, rfl, rfl, rfl, rfl, rfl, rfl⟩
  | grantHold hold terms binding =>
    obtain ⟨-, c₁, run, rfl⟩ := takes
    obtain ⟨holds, y, rfl, -, -⟩ := (holdsOnly_indexHolds hold idle.consistent.index).of_run run
    exact ⟨rfl, rfl, rfl, rfl, rfl, rfl, rfl, rfl⟩
  | refuseHold hold =>
    obtain ⟨e, run⟩ := takes
    obtain ⟨holds, y, rfl, -, -⟩ := (holdsOnly_indexHolds hold idle.consistent.index).of_run run
    exact ⟨rfl, rfl, rfl, rfl, rfl, rfl, rfl, rfl⟩
  | sawCapacity stated =>
    obtain rfl := takes
    exact ⟨rfl, rfl, rfl, rfl, rfl, rfl, rfl, rfl⟩
  | fence record =>
    obtain ⟨c₁, appended, rfl⟩ := takes
    exact appended.tables.trans ⟨rfl, rfl, rfl, rfl, rfl, rfl, rfl, rfl⟩

/-! ## What holds of every record -/

/-- Every record, stored or archived, satisfies `Q`. -/
structure All (Q : ReservationRecord → Prop) (c : Coordinator) : Prop where
  stored : ∀ (k : ReservationKey) (r : ReservationRecord), c.records[k]? = some r → Q r
  archived : ∀ (id : ReservationId) (r : ReservationRecord), c.retired[id]? = some r → Q r

/-- What does not depend on the state of a record. -/
def Lasting (Q : ReservationRecord → Prop) : Prop := ∀ {r r'}, Descends r r' → Q r → Q r'

/-- The records a recollection registers satisfy `Q`. -/
def Recollection.Meets (Q : ReservationRecord → Prop) : Recollection → Prop
  | .record r | .archived r => Q r
  | _ => True

section

variable {Q : ReservationRecord → Prop} {c c' : Coordinator}

theorem All.same (h : All Q c) (records : c'.records = c.records) (retired : c'.retired = c.retired) :
    All Q c' :=
  ⟨fun k r there => h.stored k r (records ▸ there), fun id r there => h.archived id r (retired ▸ there)⟩

theorem all_retireRecord (lasting : Lasting Q) (now : Timestamp) :
    ∀ (keys : List ReservationKey) {c : Coordinator}, All Q c →
      All Q (keys.foldl (retireRecord now) c)
  | [], _, h => h
  | key :: keys, c, h => by
    refine all_retireRecord lasting now keys ⟨fun k r there => h.stored k r (retireRecord_get there),
      fun id r there => ?_⟩
    unfold retireRecord at there
    cases stored : c.records[key]? with
    | none =>
      rw [stored] at there
      exact h.archived id r there
    | some s =>
      rw [stored] at there
      dsimp only at there
      rw [Map.get_insert] at there
      split at there
      · rw [← Option.some.inj there]
        have same : Descends s (Brf.Coordinator.archived s now) := ⟨rfl, rfl, rfl⟩
        exact lasting same (h.stored key s stored)
      · exact h.archived id r there

/-- Only retirement changes the archive. -/
theorem retired_takes (idle : Idle c) {m : Move} (takes : m.Takes c c') :
    c'.retired = c.retired ∨ ∃ now, m = .retire now := by
  have tables := tables_takes idle takes
  cases m with
  | retire now => exact .inr ⟨now, rfl⟩
  | _ => exact .inl tables.retired

/-- **A move** keeps what is lasting, if it registers nothing else. -/
theorem all_takes (lasting : Lasting Q) (idle : Idle c) {m : Move} (takes : m.Takes c c')
    (h : All Q c) (own : ∀ r, .record r ∈ m.recollections c → Q r) : All Q c' := by
  refine ⟨fun k r there => ?_, ?_⟩
  · rcases becomes_takes idle takes there with ⟨registered, -⟩ | ⟨s, before, becomes⟩
    · exact own r registered
    · exact lasting becomes.descends (h.stored k s before)
  · rcases retired_takes idle takes with same | ⟨now, rfl⟩
    · rw [same]
      exact h.archived
    · obtain ⟨-, c₁, appended, rfl⟩ := takes
      have before : All Q c₁ := h.same appended.records appended.tables.retired
      exact (all_retireRecord lasting now c.retireBatch before).archived

/-! ## What is written of it -/

/-- The snapshot of a state holds its records. -/
theorem meets_snapshotState (h : All Q c) : ∀ t ∈ snapshotRecollections c.snapshotState, t.Meets Q := by
  intro t mem
  rcases List.mem_append.mp mem with mem | mem
  · obtain ⟨r, there, rfl⟩ := List.mem_map.mp mem
    obtain ⟨k, stored⟩ := Map.mem_values.mp there
    exact h.stored k r stored
  rcases List.mem_append.mp mem with mem | mem
  · obtain ⟨a, -, rfl⟩ := List.mem_map.mp mem
    trivial
  · obtain ⟨r, there, rfl⟩ := List.mem_map.mp mem
    obtain ⟨id, archived⟩ := Map.mem_values.mp there
    exact h.archived id r archived

/-- The records a move registers are those of a commit or of a revalidation. -/
theorem record_recollections {m : Move} {r : ReservationRecord} (mem : .record r ∈ m.recollections c) :
    (∃ p victims, m = .create p victims ∧
      r ∈ (c.createMutation p victims).record :: (c.createMutation p victims).members) ∨
    (∃ p superseded successors mutation, m = .amend p superseded successors mutation ∧
      r ∈ successors) ∨
    ∃ r' binding now context, m = .revalidate r' binding now context ∧
      r = c.revalidatedSuccessor r' binding now context := by
  have listed : ∀ {rs : List ReservationRecord} {a : AttemptRecord},
      Recollection.record r ∈ rs.map Recollection.record ++ [.attempt a] → r ∈ rs := by
    intro rs a mem
    obtain ⟨r', own, same⟩ := List.mem_map.mp ((List.mem_append.mp mem).resolve_right
      fun no => absurd (List.mem_singleton.mp no) (by simp))
    exact Recollection.record.inj same ▸ own
  cases m with
  | create p victims => exact .inl ⟨p, victims, rfl, listed mem⟩
  | amend p superseded successors mutation =>
    exact .inr (.inl ⟨p, superseded, successors, mutation, rfl, listed mem⟩)
  | revalidate r' binding now context =>
    exact .inr (.inr ⟨r', binding, now, context, rfl,
      Recollection.record.inj (List.mem_singleton.mp mem)⟩)
  | transition r' target now reason context retained =>
    cases retained with
    | false => exact absurd mem List.not_mem_nil
    | true => exact absurd (List.mem_singleton.mp mem) (by simp)
  | refusal attempt => exact absurd (List.mem_singleton.mp mem) (by simp)
  | pendRecall r' now reason context effect grace => exact absurd (List.mem_singleton.mp mem) (by simp)
  | retire now => exact absurd (List.mem_map.mp mem) (by simp)
  | _ => exact absurd mem List.not_mem_nil

/-- What a record of the journal adds, it registers or retains. -/
theorem mem_recollections {d : DurableRecord} {t : Recollection} (mem : t ∈ recollections d) :
    (∃ r ∈ registers d, t = .record r) ∨ (∃ a, t = .attempt a) ∨ ∃ key, t = .retire key := by
  have reservation : ∀ m : ReservationMutation,
      t ∈ (m.record :: m.members).map .record ++ attemptRecollection m.attempt →
        (∃ r ∈ m.record :: m.members, t = .record r) ∨ (∃ a, t = .attempt a) ∨
          ∃ key, t = .retire key := by
    intro m mem
    rcases List.mem_append.mp mem with mem | mem
    · obtain ⟨r, there, rfl⟩ := List.mem_map.mp mem
      exact .inl ⟨r, there, rfl⟩
    · obtain ⟨a, -, rfl⟩ := List.mem_map.mp mem
      exact .inr (.inl ⟨_, rfl⟩)
  cases d with
  | reservationCommit m => exact reservation m mem
  | reservationAmend m => exact reservation m mem
  | reservationSeries m => exact reservation m mem
  | reservationState m =>
    obtain ⟨a, -, rfl⟩ := List.mem_map.mp mem
    exact .inr (.inl ⟨_, rfl⟩)
  | attemptOutcome a => exact .inr (.inl ⟨_, List.mem_singleton.mp mem⟩)
  | retire m =>
    obtain ⟨key, -, rfl⟩ := List.mem_map.mp mem
    exact .inr (.inr ⟨key, rfl⟩)
  | _ => exact absurd mem List.not_mem_nil

/-- What a move logs, it registers. -/
theorem registers_logs (idle : Idle c) {m : Move} (takes : m.Takes c c') {d : DurableRecord}
    (mem : d ∈ m.logs c) {r : ReservationRecord} (there : r ∈ registers d) :
    .record r ∈ m.recollections c := by
  cases m with
  | create p victims =>
    obtain rfl := List.mem_singleton.mp mem
    exact List.mem_append_left _ (List.mem_map_of_mem there)
  | amend p superseded successors mutation =>
    obtain rfl := List.mem_singleton.mp mem
    obtain ⟨made, -⟩ := takes_amend idle takes
    exact List.mem_append_left _ (List.mem_map_of_mem ((amendMutation_successors made).1.mem_iff.mp there))
  | revalidate r' binding now context =>
    obtain rfl := List.mem_singleton.mp mem
    obtain rfl := List.mem_singleton.mp there
    exact List.mem_singleton.mpr rfl
  | _ =>
    first
      | exact absurd mem List.not_mem_nil
      | (obtain rfl := List.mem_singleton.mp mem
         exact absurd there List.not_mem_nil)

/-- **What a move leaves** in the directory satisfies `Q`, if the state and what the move registers
do. -/
theorem all_leaves (idle : Idle c) {m : Move} (takes : m.Takes c c') (h : All Q c) {x : Contents}
    (there : ∀ t ∈ x.recollections, t.Meets Q) (own : ∀ r, .record r ∈ m.recollections c → Q r) :
    ∀ t ∈ (m.leaves c x).recollections, t.Meets Q := by
  by_cases snapshot : m = .snapshot
  · subst snapshot
    intro t mem
    exact meets_snapshotState h t ((List.mem_append.mp mem).resolve_right List.not_mem_nil)
  · have leaves : m.leaves c x = { x with tail := x.tail ++ m.logs c } := by
      cases m <;> first | rfl | exact absurd rfl snapshot
    intro t mem
    rw [leaves, mem_recollections_append] at mem
    rcases mem with before | logged
    · exact there t before
    · obtain ⟨d, mem, logged⟩ := List.mem_flatMap.mp logged
      rcases mem_recollections logged with ⟨r, registered, rfl⟩ | ⟨a, rfl⟩ | ⟨key, rfl⟩
      · exact own r (registers_logs idle takes mem registered)
      · trivial
      · trivial

/-! ## Recovery -/

theorem all_insert (h : All Q c) {r : ReservationRecord} (own : Q r)
    (records : c'.records = c.records.insert r.key r) (retired : c'.retired = c.retired) :
    All Q c' := by
  refine ⟨fun k found there => ?_, fun id found there => h.archived id found (retired ▸ there)⟩
  rw [records, Map.get_insert] at there
  split at there
  · rw [← Option.some.inj there]
    exact own
  · exact h.stored k found there

theorem all_recollect (h : All Q c) {t : Recollection} (own : t.Meets Q) : All Q (c.recollect t) := by
  cases t with
  | record r => exact all_insert h own (recallRecord_records c r) (tables_recallRecord c r).retired
  | archived r =>
    have entered : All Q (c.registerRecord r) := all_insert h own rfl rfl
    refine ⟨entered.stored, fun id found there => ?_⟩
    change (c.retired.insert r.id r)[id]? = some found at there
    rw [Map.get_insert] at there
    split at there
    · rw [← Option.some.inj there]
      exact own
    · exact h.archived id found there
  | attempt a => exact ⟨h.stored, h.archived⟩
  | retire key =>
    change All Q (c.replayRetire key)
    unfold replayRetire
    cases stored : c.records[key]? with
    | none => exact h
    | some r =>
      refine ⟨fun k found there => ?_, fun id found there => ?_⟩
      · change (c.records.erase key)[k]? = some found at there
        rw [Map.get_erase] at there
        split at there
        · cases there
        · exact h.stored k found there
      · change (c.retired.insert key.id r)[id]? = some found at there
        rw [Map.get_insert] at there
        split at there
        · rw [← Option.some.inj there]
          exact h.stored key r stored
        · exact h.archived id found there

theorem all_recall (lasting : Lasting Q) {ts : List Recollection} (own : ∀ t ∈ ts, t.Meets Q)
    (step : Recall ts c c') (h : All Q c) : All Q c' := by
  cases step with
  | moved _ key r next stored named terms authority =>
    have descends : Descends r next := ⟨named, terms, authority⟩
    exact all_insert h (lasting descends (h.stored key r stored)) (moveRecord_records c r next)
      (tables_moveRecord c r next).retired
  | put _ key r next stored named terms authority =>
    have descends : Descends r next := ⟨named, terms, authority⟩
    exact all_insert h (lasting descends (h.stored key r stored)) rfl rfl
  | elsewhere _ _ same => exact h.same same.records same.retired
  | recollect _ t => exact all_recollect h (own t List.mem_cons_self)

theorem all_recalls (lasting : Lasting Q) {ts : List Recollection} (own : ∀ t ∈ ts, t.Meets Q)
    (steps : Recalls ts c c') (h : All Q c) : All Q c' := by
  induction steps with
  | refl => exact h
  | step _ last ih =>
    exact all_recall lasting (fun t mem => own t (List.mem_append_right _ mem)) last
      (ih (fun t mem => own t (List.mem_append_left _ mem)) h)

/-- **Recovery** keeps what is lasting. -/
theorem all_recover (lasting : Lasting Q) {config : Config} {disk : Disk} {faults : List Bool}
    {x : Contents} (w : Written disk x) (sound : SoundContents x)
    (h : recover config disk faults = .ok c) (there : ∀ t ∈ x.recollections, t.Meets Q) :
    All Q c := by
  obtain ⟨store, c₁, -, -, steps, indexed⟩ := recalls_recover w sound h
  have blank : All Q { config, store } :=
    ⟨fun _ _ no => absurd no (by simp), fun _ _ no => absurd no (by simp)⟩
  have read := all_recalls lasting there steps blank
  obtain ⟨y, rfl⟩ := (ensures_rebuildIndex_shape c₁.rebuildQueues).of_run indexed
  obtain ⟨a, e, q, queued⟩ := rebuildQueues_shape c₁
  exact read.same (by rw [queued]; rfl) (by rw [queued]; rfl)

end

end Coordinator

/-- **What is lasting**, and holds of every record that a move registers while it holds of all others,
holds of every record of every run. -/
theorem System.all_reachable {Q : ReservationRecord → Prop} (lasting : Coordinator.Lasting Q)
    (own : ∀ {c c' : Coordinator} {m : Coordinator.Move}, Coordinator.Idle c →
      Coordinator.All Q c → m.Takes c c' → ∀ r, .record r ∈ m.recollections c → Q r)
    {as : List Action} {c : Coordinator} (h : System.run as = .up c) : Coordinator.All Q c := by
  have keeps : System.Keeps (fun _ _ => True)
      (fun c x => Coordinator.All Q c ∧ ∀ t ∈ x.recollections, t.Meets Q)
      (fun _ x => ∀ t ∈ x.recollections, t.Meets Q) :=
    { move := fun _ _ idle _ ⟨all, written⟩ takes =>
        ⟨Coordinator.all_takes lasting idle takes all (own idle all takes),
          Coordinator.all_leaves idle takes all written (own idle all takes)⟩
      recover := fun _ w sound meets h => ⟨Coordinator.all_recover lasting w sound h meets, meets⟩
      close := fun _ ⟨_, meets⟩ => meets }
  have held := System.holds_always keeps
    (System.holds_initial fun _ no => absurd no List.not_mem_nil) as
  rw [show after System.step System.initial as = .up c from h] at held
  obtain ⟨-, x, -, -, all, -⟩ := held
  exact all

end Brf
