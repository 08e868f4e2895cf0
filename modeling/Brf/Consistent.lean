import Brf.Moves
import Brf.Projections

/-!
# Consistent states

What the bookkeeping of the coordinator relies on, in every state between two operations.

* `Consistent`: the store is in order, the index is well formed and holds entries of stored consuming
  records only, records are stored under their own keys and can be indexed.
* `Idle` is a consistent state with nothing suspended: where a request starts and ends.
* In a consistent state no projection of a durable record fails. `committed`, `amended` and
  `revalidated` are the states the three commits leave, but for the index.

Results: `consistent_replaced`, `consistent_installed`, `ensures_projectCreate`,
`ensures_projectAmend` and `ensures_projectRevalidation`.
-/

namespace Brf

open Brf.Lib

namespace Coordinator

/-- A stored generation is there and consumes capacity. -/
def Backs (records : Map ReservationKey ReservationRecord) (e : IndexEntry) : Prop :=
  ∃ r, records[(⟨e.id, e.holderGeneration⟩ : ReservationKey)]? = some r ∧ r.consumes = true

/-- The invariant of the bookkeeping. -/
structure Consistent (c : Coordinator) : Prop where
  store : c.store.InOrder
  index : c.index.Wf
  keyed : ∀ (k : ReservationKey) (r : ReservationRecord), c.records[k]? = some r → r.key = k
  sound : ∀ (k : ReservationKey) (r : ReservationRecord), c.records[k]? = some r → r.Sound
  archive : ∀ (id : ReservationId) (r : ReservationRecord), c.retired[id]? = some r →
    r.id = id ∧ r.Sound
  backed : ∀ e, c.index.Has e → e.kind = .reservation → Backs c.records e
  ledger : ∀ (n : ResourceName) (entry : CapacityEntry), c.ledger[n]? = some entry →
    entry.capacity.resource = n ∧ n.empty = false

/-- A state between two operations. -/
structure Idle (c : Coordinator) : Prop where
  consistent : Consistent c
  suspended : c.suspended = []

/-- Consistency does not look at the other fields. -/
theorem Consistent.congr {c d : Coordinator} (h : Consistent c) (store : d.store.InOrder)
    (index : d.index = c.index) (records : d.records = c.records)
    (retired : d.retired = c.retired) (ledger : d.ledger = c.ledger) : Consistent d where
  store := store
  index := by rw [index]; exact h.index
  keyed := by rw [records]; exact h.keyed
  sound := by rw [records]; exact h.sound
  archive := by rw [retired]; exact h.archive
  backed := by rw [index, records]; exact h.backed
  ledger := by rw [ledger]; exact h.ledger

/-- Another index with the same reservation entries, or fewer. -/
theorem Consistent.withIndex {c : Coordinator} (h : Consistent c) {y : CapacityIndex} (wf : y.Wf)
    (fewer : ∀ e, y.Has e → e.kind = .reservation → c.index.Has e) : Consistent (c.withIndex y) where
  store := h.store
  index := wf
  keyed := h.keyed
  sound := h.sound
  archive := h.archive
  backed e he kind := h.backed e (fewer e he kind) kind
  ledger := h.ledger

/-! ## One record -/

/-- The index after one of the three ways to follow a record: what belongs to the record's own
generation is there only if the record is indexable, and the rest was there before. -/
def Tracks (c : Coordinator) (r : ReservationRecord) (y : CapacityIndex) : Prop :=
  ∀ e, y.Has e → (c.indexable r = true ∧ e.id = r.id ∧ e.holderGeneration = r.generation) ∨
    c.index.Has e ∧ ¬ (ReservationRecord.Owns r.id e ∧ e.holderGeneration = r.generation)

theorem Replaced.tracks {c : Coordinator} {r : ReservationRecord} {y : CapacityIndex}
    (h : Replaced c r y) : Tracks c r y := by
  intro e he
  rcases (h e).mp he with ⟨indexable, mem⟩ | ⟨has, other⟩
  · obtain ⟨ref, -, rfl⟩ := ReservationRecord.mem_entries.mp mem
    exact .inl ⟨indexable, rfl, rfl⟩
  · exact .inr ⟨has, fun own => other own.1⟩

theorem Erased.tracks {c : Coordinator} {r : ReservationRecord} {y : CapacityIndex}
    (h : Erased c r y) : Tracks c r y := fun e he =>
  .inr ⟨((h e).mp he).1, fun own => ((h e).mp he).2 own.1⟩

/-- An index that holds entries of the generation exactly if it is indexable tracks it as it is. -/
theorem tracks_same {c : Coordinator} (wf : c.index.Wf) {r : ReservationRecord} {y : CapacityIndex}
    (agree : c.indexHolds r = true → c.indexable r = true) (same : ∀ e, y.Has e ↔ c.index.Has e) :
    Tracks c r y := by
  intro e he
  have has := (same e).mp he
  by_cases own : ReservationRecord.Owns r.id e ∧ e.holderGeneration = r.generation
  · exact .inl ⟨agree ((indexHolds_iff wf).mpr ⟨e, has, own⟩), own.1.2, own.2⟩
  · exact .inr ⟨has, own⟩

theorem Synced.tracks {c : Coordinator} (wf : c.index.Wf) {r : ReservationRecord}
    {y : CapacityIndex} (h : Synced c r y) : Tracks c r y := by
  unfold Synced at h
  split at h
  · rename_i same
    exact tracks_same wf (fun held => same.trans held) h
  · exact Replaced.tracks h

theorem Updated.tracks {c : Coordinator} (wf : c.index.Wf) {r : ReservationRecord}
    {y : CapacityIndex} (h : Updated c r y) : Tracks c r y := by
  unfold Updated at h
  split at h
  · exact Replaced.tracks h
  · rename_i neither
    refine tracks_same wf (fun held => absurd ?_ neither) h
    rw [held, Bool.or_true]

theorem Follows.tracks {c : Coordinator} (wf : c.index.Wf) {r : ReservationRecord}
    {y : CapacityIndex} (h : Follows c r y) : Tracks c r y := by
  unfold Follows at h
  split at h
  · exact Updated.tracks wf h
  · exact Synced.tracks wf h

/-- What is left in the index is backed by the store in which the record has been put. -/
theorem Tracks.backs {c : Coordinator} (h : Consistent c) {next : ReservationRecord}
    {y : CapacityIndex} (tracks : Tracks c next y) :
    ∀ e, y.Has e → e.kind = .reservation → Backs (c.records.insert next.key next) e := by
  intro e he kind
  unfold Backs
  rcases tracks e he with ⟨indexable, id, generation⟩ | ⟨has, other⟩
  · refine ⟨next, ?_, indexable_consumes indexable⟩
    rw [id, generation]
    exact (Map.get_insert _ _ _ _).trans (if_pos rfl)
  · obtain ⟨r, stored, consumes⟩ := h.backed e has kind
    refine ⟨r, ?_, consumes⟩
    rw [Map.get_insert_ne, stored]
    intro same
    exact other ⟨⟨kind, congrArg ReservationKey.id same⟩, congrArg ReservationKey.generation same⟩

/-- A sound record may enter a consistent store under its own key. -/
theorem insert_keyed {records : Map ReservationKey ReservationRecord} {next : ReservationRecord}
    {P : ReservationKey → ReservationRecord → Prop} (h : ∀ k r, records[k]? = some r → P k r)
    (entering : P next.key next) : ∀ k r, (records.insert next.key next)[k]? = some r → P k r := by
  intro k r stored
  rw [Map.get_insert] at stored
  by_cases same : k = next.key
  · rw [if_pos same] at stored
    obtain rfl := Option.some.inj stored
    rw [same]
    exact entering
  · rw [if_neg same] at stored
    exact h k r stored

theorem consistent_replaced {c : Coordinator} (h : Consistent c) {r next : ReservationRecord}
    {y : CapacityIndex} (sound : next.Sound) (wf : y.Wf) (tracks : Tracks c next y) :
    Consistent (c.replaced r next y) := by
  obtain ⟨a, e, q, l, n, shape⟩ := replaced_shape c r next y
  rw [shape]
  exact
    { store := h.store
      index := wf
      keyed := insert_keyed h.keyed rfl
      sound := insert_keyed (P := fun _ r => r.Sound) h.sound sound
      archive := h.archive
      backed := tracks.backs h
      ledger := h.ledger }

theorem consistent_installed {c : Coordinator} (h : Consistent c) {r : ReservationRecord}
    {y : CapacityIndex} (sound : r.Sound) (wf : y.Wf) (tracks : Tracks c r y) :
    Consistent (c.installed r y) := by
  obtain ⟨a, e, q, shape⟩ := installed_shape c r y
  rw [shape]
  exact
    { store := h.store
      index := wf
      keyed := insert_keyed h.keyed rfl
      sound := insert_keyed (P := fun _ r => r.Sound) h.sound sound
      archive := h.archive
      backed := tracks.backs h
      ledger := h.ledger }

/-! ## Updates that leave the index alone -/

/-- The state with another index and other suspended entries. -/
def evaluating (c : Coordinator) (index : CapacityIndex) (suspended : List IndexEntry) :
    Coordinator := { c with index, suspended }

theorem withIndex_withIndex (c : Coordinator) (y z : CapacityIndex) :
    (c.withIndex y).withIndex z = c.withIndex z := rfl

/-- An update that neither looks at the index and the suspended entries nor changes them. -/
def Aside (f : Coordinator → Coordinator) : Prop :=
  ∀ c index suspended, f (c.evaluating index suspended) = (f c).evaluating index suspended

namespace Aside

variable {f g : Coordinator → Coordinator}

theorem suspended (h : Aside f) (c : Coordinator) : (f c).suspended = c.suspended := by
  have same : f c = (f c).evaluating c.index c.suspended := h c c.index c.suspended
  rw [same]
  rfl

theorem withIndex (h : Aside f) (c : Coordinator) (y : CapacityIndex) :
    f (c.withIndex y) = (f c).withIndex y := by
  have both := h c y c.suspended
  change f (c.withIndex y) = _ at both
  rw [both, ← h.suspended c]
  rfl

theorem comp (hf : Aside f) (hg : Aside g) : Aside fun c => g (f c) := by
  intro c index suspended
  dsimp only
  rw [hf, hg]

theorem foldl {α : Type} {f : Coordinator → α → Coordinator} (h : ∀ x, Aside fun c => f c x) :
    ∀ xs : List α, Aside fun c => xs.foldl f c
  | [] => fun _ _ _ => rfl
  | x :: xs => (h x).comp (foldl h xs)

end Aside

theorem aside_putRecord (r : ReservationRecord) : Aside fun c => c.putRecord r := fun _ _ _ => rfl

theorem aside_registerRecord (r : ReservationRecord) : Aside fun c => c.registerRecord r :=
  fun _ _ _ => rfl

theorem aside_putSeries (series : ReservationSeries) : Aside fun c => c.putSeries series :=
  fun _ _ _ => rfl

theorem aside_rememberAttempt (attempt : AttemptRecord) : Aside fun c => c.rememberAttempt attempt :=
  fun _ _ _ => rfl

theorem aside_edges (edges : List SupersessionEdge) :
    Aside fun c => { c with edges := c.edges ++ edges } := fun _ _ _ => rfl

theorem aside_countState (old new : ReservationState) : Aside fun c => c.countState old new := by
  intro c index suspended
  unfold countState evaluating
  dsimp only
  split
  · rfl
  · split <;> rfl

theorem aside_syncQueues (r : ReservationRecord) : Aside fun c => c.syncQueues r := by
  intro c index suspended
  unfold syncQueues evaluating
  dsimp only
  split <;> rfl

theorem aside_recallRecord (r : ReservationRecord) : Aside fun c => c.recallRecord r :=
  (aside_registerRecord r).comp (aside_syncQueues r)

theorem aside_consumeHold (p : CreatePlan) (id : HoldId) : Aside fun c => consumeHold p c id := by
  intro c index suspended
  have same : (c.evaluating index suspended).holds = c.holds := rfl
  unfold consumeHold
  dsimp only
  rw [same]
  cases c.holds[id]? <;> rfl

/-- A stored record in its next form, with the counters and the queues that follow it. -/
def moveRecord (c : Coordinator) (r next : ReservationRecord) : Coordinator :=
  ((c.countState r.state next.state).putRecord next).syncQueues next

theorem aside_moveRecord (r next : ReservationRecord) : Aside fun c => c.moveRecord r next :=
  ((aside_countState r.state next.state).comp (aside_putRecord next)).comp (aside_syncQueues next)

@[simp] theorem moveRecord_records (c : Coordinator) (r next : ReservationRecord) :
    (c.moveRecord r next).records = c.records.insert next.key next :=
  replaced_records c r next c.index

@[simp] theorem recallRecord_records (c : Coordinator) (r : ReservationRecord) :
    (c.recallRecord r).records = c.records.insert r.key r := installed_records c r c.index

theorem moveRecord_shape (c : Coordinator) (r next : ReservationRecord) :
    ∃ activationQueue expiryQueue recallQueue liveCount historyCount,
      c.moveRecord r next =
        { c with
          records := c.records.insert next.key next
          activationQueue, expiryQueue, recallQueue, liveCount, historyCount } := by
  obtain ⟨l, h, counted⟩ := countState_shape c r.state next.state
  obtain ⟨a, e, q, queued⟩ :=
    syncQueues_shape ((c.countState r.state next.state).putRecord next) next
  refine ⟨a, e, q, l, h, ?_⟩
  unfold moveRecord
  rw [queued, counted]
  rfl

theorem recallRecord_shape (c : Coordinator) (r : ReservationRecord) :
    ∃ activationQueue expiryQueue recallQueue,
      c.recallRecord r = { c.registerRecord r with activationQueue, expiryQueue, recallQueue } :=
  syncQueues_shape (c.registerRecord r) r

/-- A generation moves to its next form, if it is stored. -/
def moveStored (next : ReservationRecord → ReservationRecord) (c : Coordinator)
    (key : ReservationKey) : Coordinator :=
  match c.records[key]? with
  | none => c
  | some r => c.moveRecord r (next r)

theorem aside_moveStored (next : ReservationRecord → ReservationRecord) (key : ReservationKey) :
    Aside fun c => moveStored next c key := by
  intro c index suspended
  have records : (c.evaluating index suspended).records = c.records := rfl
  unfold moveStored
  dsimp only
  rw [records]
  cases c.records[key]? with
  | none => rfl
  | some r => exact aside_moveRecord r (next r) c index suspended

/-- A companion transition, but for the index. -/
def companionDone (c : Coordinator) (companion : StateMutation) : Coordinator :=
  moveStored companion.applyTo c ⟨companion.id, companion.generation⟩

/-- A supersession, but for the index. -/
def supersedeDone (p : AmendPlan) (provenance : Provenance) (c : Coordinator)
    (previous : ReservationRecord) : Coordinator :=
  moveStored (p.supersededForm provenance) c previous.key

/-- **Loop rule for projections**: if each turn makes the update `f` and keeps the state
consistent, the loop makes all of them. -/
theorem ensures_each_projected {α : Type} {f : Coordinator → α → Coordinator}
    (aside : ∀ x, Aside fun c => f c x) {m : α → Method Unit} :
    ∀ {xs : List α} {c : Coordinator}, Consistent c →
      (∀ x ∈ xs, ∀ d, Consistent d → Op.Ensures (m x) d fun res d' => res = .ok () ∧
        ∃ y, d' = (f d x).withIndex y ∧ Consistent d') →
      Op.Ensures (Op.each m xs) c fun res c' => res = .ok () ∧
        ∃ y, c' = (xs.foldl f c).withIndex y ∧ Consistent c'
  | [], c, h, _ => ⟨rfl, c.index, rfl, h⟩
  | x :: xs, c, h, turn => by
    apply Op.ensures_bind
    refine (turn x List.mem_cons_self c h).mono ?_
    rintro _ d ⟨rfl, y, rfl, consistent⟩
    refine (ensures_each_projected aside consistent
      fun x' mem => turn x' (List.mem_cons_of_mem _ mem)).mono ?_
    rintro res d' ⟨rfl, z, rfl, consistent'⟩
    refine ⟨rfl, z, ?_, consistent'⟩
    rw [(Aside.foldl aside xs).withIndex]
    rfl

theorem projects_applyCompanion {c : Coordinator} (h : Consistent c) (companion : StateMutation) :
    Op.Ensures (applyCompanion companion) c fun res c' => res = .ok () ∧
      ∃ y, c' = (c.companionDone companion).withIndex y ∧ Consistent c' := by
  refine (ensures_applyCompanion h.index companion fun r stored => h.sound _ r stored).mono ?_
  rintro res c' ⟨rfl, moved⟩
  refine ⟨rfl, ?_⟩
  unfold companionDone moveStored
  unfold findRecord at moved
  cases stored : c.records[(⟨companion.id, companion.generation⟩ : ReservationKey)]? with
  | none =>
    rw [stored] at moved
    obtain rfl := moved
    exact ⟨c'.index, rfl, h⟩
  | some r =>
    rw [stored] at moved
    obtain ⟨y, rfl, wf, synced⟩ := moved
    exact ⟨y, rfl, consistent_replaced h (Sound.of_kept (h.sound _ r stored) rfl rfl) wf
      (synced.tracks h.index)⟩

theorem projects_supersede {c : Coordinator} (h : Consistent c) (p : AmendPlan)
    (provenance : Provenance) (previous : ReservationRecord) :
    Op.Ensures (supersede p provenance previous) c fun res c' => res = .ok () ∧
      ∃ y, c' = (supersedeDone p provenance c previous).withIndex y ∧ Consistent c' := by
  refine (ensures_supersede h.index p provenance previous).mono ?_
  rintro res c' ⟨rfl, moved⟩
  refine ⟨rfl, ?_⟩
  unfold supersedeDone moveStored ReservationRecord.key
  unfold findRecord at moved
  cases stored : c.records[(⟨previous.id, previous.generation⟩ : ReservationKey)]? with
  | none =>
    rw [stored] at moved
    obtain rfl := moved
    exact ⟨c'.index, rfl, h⟩
  | some r =>
    rw [stored] at moved
    obtain ⟨y, rfl, wf, erased⟩ := moved
    exact ⟨y, rfl, consistent_replaced h (Sound.of_kept (h.sound _ r stored) rfl rfl) wf
      erased.tracks⟩

theorem projects_installRecord {c : Coordinator} (h : Consistent c) {r : ReservationRecord}
    (sound : r.Sound) : Op.Ensures (installRecord r) c fun res c' => res = .ok () ∧
      ∃ y, c' = (c.recallRecord r).withIndex y ∧ Consistent c' := by
  refine (ensures_installRecord h.index sound).mono ?_
  rintro res c' ⟨rfl, y, rfl, wf, synced⟩
  exact ⟨rfl, y, rfl, consistent_installed h sound wf (synced.tracks h.index)⟩

theorem projects_installSuccessor {c : Coordinator} (h : Consistent c) {r : ReservationRecord}
    (sound : r.Sound) : Op.Ensures (installSuccessor r) c fun res c' => res = .ok () ∧
      ∃ y, c' = (c.recallRecord r).withIndex y ∧ Consistent c' := by
  refine (ensures_installSuccessor h.index sound).mono ?_
  rintro res c' ⟨rfl, y, rfl, wf, updated⟩
  exact ⟨rfl, y, rfl, consistent_installed h sound wf (updated.tracks h.index)⟩

/-! ## Commits -/

/-- What the commit of a create leaves, but for the index. -/
def afterCreate (c : Coordinator) (p : CreatePlan) (mutation : ReservationMutation)
    (sequence : DurableSequence) : Coordinator :=
  let c := mutation.companions.foldl companionDone c
  let c := (mutation.record :: mutation.members).foldl recallRecord c
  let c := mutation.series.toList.foldl putSeries c
  let c := c.rememberAttempt (attemptFor p.context p.fingerprint .committable
    mutation.record.key sequence p.terms.claimant p.now)
  { p.holds.foldl (consumeHold p) c with suspended := [] }

/-- What the commit of an amendment leaves, but for the index. -/
def afterAmend (c : Coordinator) (p : AmendPlan) (superseded successors : List ReservationRecord)
    (mutation : ReservationMutation) (provenance : Provenance) (sequence : DurableSequence) :
    Coordinator :=
  let c := superseded.foldl (supersedeDone p provenance) c
  let c := { c with edges := c.edges ++ mutation.edge.toList }
  let c := successors.foldl recallRecord c
  let c := mutation.series.toList.foldl putSeries c
  { c.rememberAttempt (amendAttempt p mutation.record sequence) with suspended := [] }

/-- What the commit of a revalidation leaves, but for the index. -/
def afterRevalidation (c : Coordinator) (r : ReservationRecord) (now : Timestamp)
    (mutation : ReservationMutation) (provenance : Provenance) : Coordinator :=
  let c := c.moveRecord r (revalidatedForm r now provenance)
  let c := { c with edges := c.edges ++ mutation.edge.toList }
  { c.recallRecord mutation.record with suspended := [] }

/-- Series, attempts and holds are not looked at. -/
theorem consistent_putSeries {c : Coordinator} (h : Consistent c) (series : List ReservationSeries) :
    Consistent (series.foldl putSeries c) := by
  induction series generalizing c with
  | nil => exact h
  | cons s rest ih => exact ih (h.congr h.store rfl rfl rfl rfl)

theorem consistent_consumeHold {c : Coordinator} (h : Consistent c) (p : CreatePlan)
    (ids : List HoldId) : Consistent (ids.foldl (consumeHold p) c) := by
  induction ids generalizing c with
  | nil => exact h
  | cons id rest ih =>
    refine ih ?_
    unfold consumeHold
    split
    · exact h
    · exact h.congr h.store rfl rfl rfl rfl

theorem ensures_projectCreate {c : Coordinator} (h : Consistent c) (p : CreatePlan)
    {mutation : ReservationMutation} (sound : ∀ r ∈ mutation.record :: mutation.members, r.Sound)
    (sequence : DurableSequence) :
    Op.Ensures (projectCreate p mutation sequence) c fun res c' => res = .ok () ∧
      ∃ y, c' = (c.afterCreate p mutation sequence).withIndex y ∧ Consistent c' := by
  unfold projectCreate afterCreate
  dsimp only
  apply Op.ensures_bind
  refine (ensures_each_projected (f := companionDone) (fun _ => aside_moveStored _ _) h
    fun companion _ d hd => projects_applyCompanion hd companion).mono ?_
  rintro _ c₁ ⟨rfl, y₁, rfl, h₁⟩
  apply Op.ensures_bind
  refine (ensures_each_projected (f := recallRecord) aside_recallRecord h₁
    fun r mem d hd => projects_installRecord hd (sound r mem)).mono ?_
  rintro _ c₂ ⟨rfl, y₂, rfl, h₂⟩
  rw [(Aside.foldl aside_recallRecord _).withIndex, withIndex_withIndex] at h₂ ⊢
  generalize (mutation.record :: mutation.members).foldl recallRecord
    (mutation.companions.foldl companionDone c) = c₂ at h₂ ⊢
  apply Op.ensures_modify_bind
  rw [(Aside.foldl aside_putSeries _).withIndex]
  apply Op.ensures_modify_bind
  apply Op.ensures_modify_bind
  rw [(aside_rememberAttempt _).withIndex, (Aside.foldl (aside_consumeHold p) _).withIndex]
  apply Op.ensures_modify
  have h₃ := consistent_putSeries h₂ mutation.series.toList
  rw [(Aside.foldl aside_putSeries _).withIndex] at h₃
  have h₄ := consistent_consumeHold (h₃.congr (d := rememberAttempt
    ((mutation.series.toList.foldl putSeries c₂).withIndex y₂) (attemptFor p.context p.fingerprint
      .committable mutation.record.key sequence p.terms.claimant p.now)) h₃.store rfl rfl rfl rfl)
    p p.holds
  rw [(aside_rememberAttempt _).withIndex, (Aside.foldl (aside_consumeHold p) _).withIndex] at h₄
  exact ⟨rfl, y₂, rfl, h₄.congr h₄.store rfl rfl rfl rfl⟩

theorem ensures_projectAmend {c : Coordinator} (h : Consistent c) (p : AmendPlan)
    (superseded : List ReservationRecord) {successors : List ReservationRecord}
    (sound : ∀ r ∈ successors, r.Sound) (mutation : ReservationMutation) (provenance : Provenance)
    (sequence : DurableSequence) :
    Op.Ensures (projectAmend p superseded successors mutation provenance sequence) c
      fun res c' => res = .ok () ∧ ∃ y,
        c' = (c.afterAmend p superseded successors mutation provenance sequence).withIndex y ∧
          Consistent c' := by
  unfold projectAmend afterAmend
  dsimp only
  apply Op.ensures_bind
  refine (ensures_each_projected (f := supersedeDone p provenance)
    (fun _ => aside_moveStored _ _) h
    fun previous _ d hd => projects_supersede hd p provenance previous).mono ?_
  rintro _ c₁ ⟨rfl, y₁, rfl, h₁⟩
  generalize superseded.foldl (supersedeDone p provenance) c = c₁ at h₁ ⊢
  apply Op.ensures_modify_bind
  apply Op.ensures_bind
  refine (ensures_each_projected (f := recallRecord) aside_recallRecord
    (h₁.congr (d := { c₁.withIndex y₁ with edges := c₁.edges ++ mutation.edge.toList })
      h₁.store rfl rfl rfl rfl)
    fun r mem d hd => projects_installSuccessor hd (sound r mem)).mono ?_
  rintro _ c₂ ⟨rfl, y₂, rfl, h₂⟩
  have edges : ({ c₁.withIndex y₁ with edges := c₁.edges ++ mutation.edge.toList } : Coordinator) =
      ({ c₁ with edges := c₁.edges ++ mutation.edge.toList } : Coordinator).withIndex y₁ := rfl
  rw [edges, (Aside.foldl aside_recallRecord _).withIndex, withIndex_withIndex] at h₂ ⊢
  generalize successors.foldl recallRecord
    { c₁ with edges := c₁.edges ++ mutation.edge.toList } = c₂ at h₂ ⊢
  apply Op.ensures_modify_bind
  rw [(Aside.foldl aside_putSeries _).withIndex]
  apply Op.ensures_modify_bind
  apply Op.ensures_modify
  have h₃ := consistent_putSeries h₂ mutation.series.toList
  rw [(Aside.foldl aside_putSeries _).withIndex] at h₃
  exact ⟨rfl, y₂, rfl, h₃.congr h₃.store rfl rfl rfl rfl⟩

theorem ensures_projectRevalidation {c : Coordinator} (h : Consistent c) {r : ReservationRecord}
    (stored : c.records[r.key]? = some r) (now : Timestamp) {mutation : ReservationMutation}
    (sound : mutation.record.Sound) (provenance : Provenance) :
    Op.Ensures (projectRevalidation r now mutation provenance) c fun res c' => res = .ok () ∧
      ∃ y, c' = (c.afterRevalidation r now mutation provenance).withIndex y ∧ Consistent c' := by
  unfold projectRevalidation afterRevalidation
  dsimp only
  have rsound : (revalidatedForm r now provenance).Sound :=
    Sound.of_kept (h.sound _ r stored) rfl rfl
  obtain ⟨index, -⟩ := countState_fields c r.state .superseded (revalidatedForm r now provenance)
  apply Op.ensures_modify_bind
  apply Op.ensures_bind
  refine (ensures_indexErase (by rw [index]; exact h.index) (revalidatedForm r now provenance)).mono
    ?_
  rintro _ c₁ ⟨rfl, y₁, rfl, wf, erased⟩
  apply Op.ensures_modify_bind
  rw [syncQueues_index]
  have h₁ : Consistent ((c.moveRecord r (revalidatedForm r now provenance)).withIndex y₁) :=
    consistent_replaced h rsound wf ((erased_congr index).mp erased).tracks
  change Op.Ensures _ ((c.moveRecord r (revalidatedForm r now provenance)).withIndex y₁) _
  generalize c.moveRecord r (revalidatedForm r now provenance) = c₁ at h₁ ⊢
  apply Op.ensures_modify_bind
  apply Op.ensures_bind
  refine (projects_installRecord (h₁.congr
    (d := { c₁.withIndex y₁ with edges := c₁.edges ++ mutation.edge.toList })
      h₁.store rfl rfl rfl rfl) sound).mono ?_
  rintro _ c₂ ⟨rfl, y₂, rfl, h₂⟩
  apply Op.ensures_modify
  have edges : ({ c₁.withIndex y₁ with edges := c₁.edges ++ mutation.edge.toList } : Coordinator) =
      ({ c₁ with edges := c₁.edges ++ mutation.edge.toList } : Coordinator).withIndex y₁ := rfl
  rw [edges, (aside_recallRecord _).withIndex, withIndex_withIndex] at h₂ ⊢
  exact ⟨rfl, y₂, rfl, h₂.congr h₂.store rfl rfl rfl rfl⟩

/-! ## Commits of what has been evaluated -/

theorem afterCreate_evaluating (c : Coordinator) (p : CreatePlan) (mutation : ReservationMutation)
    (sequence : DurableSequence) (index : CapacityIndex) (suspended : List IndexEntry) :
    (c.evaluating index suspended).afterCreate p mutation sequence =
      (c.afterCreate p mutation sequence).withIndex index := by
  have aside := (((Aside.foldl (f := companionDone) (fun _ => aside_moveStored _ _)
    mutation.companions).comp (Aside.foldl aside_recallRecord
      (mutation.record :: mutation.members))).comp (Aside.foldl aside_putSeries
        mutation.series.toList)).comp ((aside_rememberAttempt (attemptFor p.context p.fingerprint
          .committable mutation.record.key sequence p.terms.claimant p.now)).comp
            (Aside.foldl (aside_consumeHold p) p.holds))
  have evaluated := aside c index suspended
  unfold afterCreate
  dsimp only at evaluated ⊢
  rw [evaluated]
  rfl

theorem afterAmend_evaluating (c : Coordinator) (p : AmendPlan)
    (superseded successors : List ReservationRecord) (mutation : ReservationMutation)
    (provenance : Provenance) (sequence : DurableSequence) (index : CapacityIndex)
    (suspended : List IndexEntry) :
    (c.evaluating index suspended).afterAmend p superseded successors mutation provenance sequence =
      (c.afterAmend p superseded successors mutation provenance sequence).withIndex index := by
  have aside := (((Aside.foldl (f := supersedeDone p provenance) (fun _ => aside_moveStored _ _)
    superseded).comp (aside_edges mutation.edge.toList)).comp (Aside.foldl aside_recallRecord
      successors)).comp ((Aside.foldl aside_putSeries mutation.series.toList).comp
        (aside_rememberAttempt (amendAttempt p mutation.record sequence)))
  have evaluated := aside c index suspended
  unfold afterAmend
  dsimp only at evaluated ⊢
  rw [evaluated]
  rfl

theorem afterRevalidation_evaluating (c : Coordinator) (r : ReservationRecord) (now : Timestamp)
    (mutation : ReservationMutation) (provenance : Provenance) (index : CapacityIndex)
    (suspended : List IndexEntry) :
    (c.evaluating index suspended).afterRevalidation r now mutation provenance =
      (c.afterRevalidation r now mutation provenance).withIndex index := by
  have aside := ((aside_moveRecord r (revalidatedForm r now provenance)).comp
    (aside_edges mutation.edge.toList)).comp (aside_recallRecord mutation.record)
  have evaluated := aside c index suspended
  unfold afterRevalidation
  dsimp only at evaluated ⊢
  rw [evaluated]
  rfl

end Coordinator

end Brf
