import Brf.Descent

/-!
# The deadline queues

`sync_queues_locked` files a record under its next instants in three queues. Each queue is the table
of the records' deadlines of its kind, earliest first.

* `TimeQueue.renew` is what the function does to one queue, given the deadline of the record.
* `TimeQueue.Agenda q deadline records`: the entries of `q` are the deadlines of the stored records.
* `Queued c`: the three queues follow the records.

Results: `mem_due` (what is due), `mem_dueWork`, `queued_takes` and `reachable_queued`.
-/

namespace Brf

open Brf.Lib

/-! ## One queue -/

namespace TimeQueue

variable {q : TimeQueue} {at' t now : Timestamp} {key k : ReservationKey}

/-- Earliest first. -/
def Ordered (q : TimeQueue) : Prop := q.Pairwise fun a b => a.1 ≤ b.1

theorem mem_emplace : (t, k) ∈ emplace at' key q ↔ (t = at' ∧ k = key) ∨ (t, k) ∈ q := by
  induction q with
  | nil => simp [emplace]
  | cons entry rest ih =>
    unfold emplace
    split
    · simp
    · simp only [List.mem_cons, ih]
      constructor
      · rintro (same | own | before)
        · exact .inr (.inl same)
        · exact .inl own
        · exact .inr (.inr before)
      · rintro (own | same | before)
        · exact .inr (.inl own)
        · exact .inl same
        · exact .inr (.inr before)

theorem ordered_emplace (h : Ordered q) : Ordered (emplace at' key q) := by
  induction q with
  | nil => exact List.pairwise_singleton _ _
  | cons entry rest ih =>
    obtain ⟨first, later⟩ := List.pairwise_cons.mp h
    unfold emplace
    split
    · rename_i before
      refine List.pairwise_cons.mpr ⟨fun other mem => ?_, h⟩
      rcases List.mem_cons.mp mem with rfl | mem
      · exact le_of_lt before
      · exact (le_of_lt before).trans (first other mem)
    · rename_i after
      refine List.pairwise_cons.mpr ⟨fun other mem => ?_, ih later⟩
      rcases mem_emplace.mp mem with ⟨same, -⟩ | mem
      · rw [same]
        exact le_of_not_gt after
      · exact first other mem

theorem mem_removeKey : (t, k) ∈ removeKey q key ↔ (t, k) ∈ q ∧ k ≠ key := by
  unfold removeKey
  rw [List.mem_filter]
  simp

theorem ordered_removeKey (h : Ordered q) : Ordered (removeKey q key) :=
  List.Pairwise.filter _ h

/-- The keys that are due are those with an instant that has come. -/
theorem mem_due (h : Ordered q) : k ∈ due q now ↔ ∃ t, (t, k) ∈ q ∧ t ≤ now := by
  unfold due
  rw [List.mem_map]
  induction q with
  | nil => simp
  | cons entry rest ih =>
    obtain ⟨first, later⟩ := List.pairwise_cons.mp h
    by_cases come : entry.1 ≤ now
    · rw [List.takeWhile_cons_of_pos (by simpa using come)]
      constructor
      · rintro ⟨other, mem, rfl⟩
        rcases List.mem_cons.mp mem with rfl | mem
        · exact ⟨other.1, List.mem_cons_self, come⟩
        · obtain ⟨t, there, past⟩ := (ih later).mp ⟨other, mem, rfl⟩
          exact ⟨t, List.mem_cons_of_mem _ there, past⟩
      · rintro ⟨t, mem, past⟩
        rcases List.mem_cons.mp mem with rfl | mem
        · exact ⟨(t, k), List.mem_cons_self, rfl⟩
        · obtain ⟨other, there, same⟩ := (ih later).mpr ⟨t, mem, past⟩
          exact ⟨other, List.mem_cons_of_mem _ there, same⟩
    · rw [List.takeWhile_cons_of_neg (by simpa using come)]
      constructor
      · rintro ⟨other, mem, -⟩
        cases mem
      · rintro ⟨t, mem, past⟩
        rcases List.mem_cons.mp mem with rfl | mem
        · exact absurd past come
        · exact absurd ((first _ mem).trans past) come

/-- The queue forgets a key, and files it under its deadline if it has one. -/
def renew (q : TimeQueue) (key : ReservationKey) : Option Timestamp → TimeQueue
  | some at' => emplace at' key (removeKey q key)
  | none => removeKey q key

theorem ordered_renew (h : Ordered q) (deadline : Option Timestamp) :
    Ordered (renew q key deadline) := by
  cases deadline with
  | none => exact ordered_removeKey h
  | some at' => exact ordered_emplace (ordered_removeKey h)

theorem mem_renew {deadline : Option Timestamp} : (t, k) ∈ renew q key deadline ↔
    (k = key ∧ deadline = some t) ∨ (k ≠ key ∧ (t, k) ∈ q) := by
  cases deadline with
  | none =>
    unfold renew
    rw [mem_removeKey]
    simp [and_comm]
  | some at' =>
    unfold renew
    rw [mem_emplace, mem_removeKey]
    constructor
    · rintro (⟨rfl, rfl⟩ | ⟨mem, other⟩)
      · exact .inl ⟨rfl, rfl⟩
      · exact .inr ⟨other, mem⟩
    · rintro (⟨same, own⟩ | ⟨other, mem⟩)
      · exact .inl ⟨(Option.some.inj own).symm, same⟩
      · exact .inr ⟨mem, other⟩

/-- The entries of the queue are the deadlines of the stored records, earliest first. -/
structure Agenda (q : TimeQueue) (deadline : ReservationRecord → Option Timestamp)
    (records : Map ReservationKey ReservationRecord) : Prop where
  ordered : Ordered q
  entries : ∀ t k, (t, k) ∈ q ↔ ∃ r, records[k]? = some r ∧ deadline r = some t

variable {deadline : ReservationRecord → Option Timestamp}
  {records : Map ReservationKey ReservationRecord}

theorem Agenda.insert (h : Agenda q deadline records) (r : ReservationRecord) :
    Agenda (renew q r.key (deadline r)) deadline (records.insert r.key r) := by
  refine ⟨ordered_renew h.ordered _, fun t k => ?_⟩
  rw [mem_renew, Map.get_insert]
  by_cases same : k = r.key
  · simp [same]
  · simp [same, h.entries]

/-- A record without a deadline leaves the store. -/
theorem Agenda.erase (h : Agenda q deadline records) {r : ReservationRecord}
    (stored : records[key]? = some r) (none : deadline r = none) :
    Agenda q deadline (records.erase key) := by
  refine ⟨h.ordered, fun t k => ?_⟩
  rw [h.entries, Map.get_erase]
  by_cases same : k = key
  · subst same
    rw [if_pos rfl, stored]
    simp [none]
  · rw [if_neg same]

/-- A queue is due where a deadline has come. -/
theorem Agenda.mem_due (h : Agenda q deadline records) :
    k ∈ due q now ↔ ∃ r t, records[k]? = some r ∧ deadline r = some t ∧ t ≤ now := by
  rw [TimeQueue.mem_due h.ordered]
  simp only [h.entries]
  constructor
  · rintro ⟨t, ⟨r, stored, own⟩, past⟩
    exact ⟨r, t, stored, own, past⟩
  · rintro ⟨r, t, stored, own, past⟩
    exact ⟨t, ⟨r, stored, own⟩, past⟩


/-- The queue of a list of records. -/
theorem mem_foldl_renew (deadline : ReservationRecord → Option Timestamp) :
    ∀ {rs : List ReservationRecord}, (∀ r ∈ rs, ∀ s ∈ rs, r.key = s.key → r = s) →
      Ordered (rs.foldl (fun q r => renew q r.key (deadline r)) []) ∧
        ∀ t k, (t, k) ∈ rs.foldl (fun q r => renew q r.key (deadline r)) [] ↔
          ∃ r ∈ rs, r.key = k ∧ deadline r = some t := by
  intro rs
  induction rs using List.reverseRecOn with
  | nil => exact fun _ => ⟨List.Pairwise.nil, fun t k => by simp⟩
  | append_singleton rs r ih =>
    intro unique
    obtain ⟨ordered, entries⟩ := ih fun a ha b hb =>
      unique a (List.mem_append_left _ ha) b (List.mem_append_left _ hb)
    rw [List.foldl_append]
    refine ⟨ordered_renew ordered _, fun t k => ?_⟩
    change (t, k) ∈ renew _ r.key (deadline r) ↔ _
    rw [mem_renew, entries]
    constructor
    · rintro (⟨rfl, own⟩ | ⟨-, s, mem, named, own⟩)
      · exact ⟨r, List.mem_append_right _ List.mem_cons_self, rfl, own⟩
      · exact ⟨s, List.mem_append_left _ mem, named, own⟩
    · rintro ⟨s, mem, rfl, own⟩
      by_cases same : s.key = r.key
      · obtain rfl := unique s mem r (List.mem_append_right _ List.mem_cons_self) same
        exact .inl ⟨rfl, own⟩
      · rcases List.mem_append.mp mem with before | last
        · exact .inr ⟨same, s, before, rfl, own⟩
        · exact absurd (congrArg _ (List.mem_singleton.mp last)) same

end TimeQueue

/-! ## The deadlines of a record -/

namespace ReservationRecord

/-- When a record has to be looked at because its interval opens. -/
def activationAt (r : ReservationRecord) : Option Timestamp :=
  if r.consumes && r.state = .committed then some r.terms.interval.start else none

/-- When because it ends. -/
def expiryAt (r : ReservationRecord) : Option Timestamp :=
  if r.consumes && !r.consumingInterval.empty then some r.consumingInterval.stop else none

/-- When because a recall takes effect. -/
def recallAt (r : ReservationRecord) : Option Timestamp :=
  if r.consumes && (r.state = .recallPending && 0 < r.recallEffectiveAt.val) then
    some r.recallEffectiveAt
  else none

/-- A record that does not consume has no deadlines. -/
theorem no_deadlines {r : ReservationRecord} (idle : r.consumes = false) :
    r.activationAt = none ∧ r.expiryAt = none ∧ r.recallAt = none := by
  simp [activationAt, expiryAt, recallAt, idle]

/-- One of the deadlines of the record has come. -/
def Due (r : ReservationRecord) (now : Timestamp) : Prop :=
  ∃ t, (r.activationAt = some t ∨ r.expiryAt = some t ∨ r.recallAt = some t) ∧ t ≤ now

end ReservationRecord

/-! ## The three queues -/

namespace Coordinator

open TimeQueue (Agenda renew)

variable {c d : Coordinator}

/-- `sync_queues_locked` renews the deadlines of the record. -/
theorem syncQueues_eq (c : Coordinator) (r : ReservationRecord) : c.syncQueues r =
    { c with
      activationQueue := renew c.activationQueue r.key r.activationAt
      expiryQueue := renew c.expiryQueue r.key r.expiryAt
      recallQueue := renew c.recallQueue r.key r.recallAt } := by
  unfold syncQueues ReservationRecord.activationAt ReservationRecord.expiryAt
    ReservationRecord.recallAt
  cases r.consumes with
  | false => rfl
  | true =>
    simp only [if_true, Bool.true_and]
    congr 1
    · by_cases committed : r.state = .committed <;> simp [committed, renew]
    · split <;> rfl
    · split <;> rfl

/-- The queues are the deadlines of the stored records. -/
structure Queued (c : Coordinator) : Prop where
  activation : Agenda c.activationQueue ReservationRecord.activationAt c.records
  expiry : Agenda c.expiryQueue ReservationRecord.expiryAt c.records
  recalls : Agenda c.recallQueue ReservationRecord.recallAt c.records

theorem Queued.same (h : Queued c) (records : d.records = c.records)
    (activation : d.activationQueue = c.activationQueue) (expiry : d.expiryQueue = c.expiryQueue)
    (recalls : d.recallQueue = c.recallQueue) : Queued d := by
  refine ⟨?_, ?_, ?_⟩
  · rw [records, activation]
    exact h.activation
  · rw [records, expiry]
    exact h.expiry
  · rw [records, recalls]
    exact h.recalls

/-- A record that is stored and then synchronised. -/
theorem Queued.sync (h : Queued c) {r : ReservationRecord}
    (records : d.records = c.records.insert r.key r)
    (activation : d.activationQueue = c.activationQueue) (expiry : d.expiryQueue = c.expiryQueue)
    (recalls : d.recallQueue = c.recallQueue) : Queued (d.syncQueues r) := by
  rw [syncQueues_eq, activation, expiry, recalls]
  refine ⟨?_, ?_, ?_⟩
  · change Agenda _ _ d.records
    rw [records]
    exact h.activation.insert r
  · change Agenda _ _ d.records
    rw [records]
    exact h.expiry.insert r
  · change Agenda _ _ d.records
    rw [records]
    exact h.recalls.insert r

theorem queued_moveRecord (h : Queued c) (r next : ReservationRecord) :
    Queued (c.moveRecord r next) := by
  obtain ⟨l, n, counted⟩ := countState_shape c r.state next.state
  unfold moveRecord
  rw [counted]
  exact h.sync rfl rfl rfl rfl

theorem queued_recallRecord (h : Queued c) (r : ReservationRecord) : Queued (c.recallRecord r) :=
  h.sync rfl rfl rfl rfl

theorem queued_moveStored (h : Queued c) (next : ReservationRecord → ReservationRecord)
    (key : ReservationKey) : Queued (moveStored next c key) := by
  unfold moveStored
  split
  · exact h
  · exact queued_moveRecord h _ _

/-- A loop whose turns keep the queues in step keeps them in step. -/
theorem queued_foldl {α : Type} {f : Coordinator → α → Coordinator}
    (turn : ∀ {c} x, Queued c → Queued (f c x)) :
    ∀ (xs : List α) {c : Coordinator}, Queued c → Queued (xs.foldl f c)
  | [], _, h => h
  | x :: xs, _, h => queued_foldl turn xs (turn x h)

/-- Only terminal records are retired, and they have no deadlines. -/
theorem queued_retireRecord (h : Queued c) (now : Timestamp) {key : ReservationKey}
    (ended : ∀ r, c.records[key]? = some r → isTerminal r.state = true) :
    Queued (retireRecord now c key) := by
  unfold retireRecord
  cases stored : c.records[key]? with
  | none => exact h
  | some r =>
    obtain ⟨activation, expiry, recalls⟩ :=
      ReservationRecord.no_deadlines (terminal_not_consumes (ended r stored))
    exact ⟨h.activation.erase stored activation, h.expiry.erase stored expiry,
      h.recalls.erase stored recalls⟩

theorem queued_retireBatch (now : Timestamp) : ∀ (keys : List ReservationKey) {c : Coordinator},
    Queued c → (∀ key ∈ keys, ∀ r, c.records[key]? = some r → isTerminal r.state = true) →
      Queued (keys.foldl (retireRecord now) c)
  | [], _, h, _ => h
  | key :: keys, c, h, ended => by
    refine queued_retireBatch now keys (queued_retireRecord h now (ended key List.mem_cons_self))
      fun k mem r there => ended k (List.mem_cons_of_mem _ mem) r (retireRecord_get there)

theorem queued_consumeHold (h : Queued c) (p : CreatePlan) (id : HoldId) :
    Queued (consumeHold p c id) := by
  unfold consumeHold
  split
  · exact h
  · exact h.same rfl rfl rfl rfl

theorem queued_putSeries (h : Queued c) (series : ReservationSeries) : Queued (c.putSeries series) :=
  h.same rfl rfl rfl rfl

theorem queued_afterCreate (h : Queued c) (p : CreatePlan) (mutation : ReservationMutation)
    (sequence : DurableSequence) : Queued (c.afterCreate p mutation sequence) := by
  have companions : Queued (mutation.companions.foldl companionDone c) :=
    queued_foldl (fun companion h => queued_moveStored h companion.applyTo _) _ h
  have records := queued_foldl (fun r h => queued_recallRecord h r)
    (mutation.record :: mutation.members) companions
  have series := queued_foldl (fun s h => queued_putSeries h s) mutation.series.toList records
  have attempt : Queued ((mutation.series.toList.foldl putSeries
      ((mutation.record :: mutation.members).foldl recallRecord
        (mutation.companions.foldl companionDone c))).rememberAttempt
          (attemptFor p.context p.fingerprint .committable mutation.record.key sequence
            p.terms.claimant p.now)) := series.same rfl rfl rfl rfl
  exact (queued_foldl (fun id h => queued_consumeHold h p id) p.holds attempt).same rfl rfl rfl rfl

theorem queued_afterAmend (h : Queued c) (p : AmendPlan)
    (superseded successors : List ReservationRecord) (mutation : ReservationMutation)
    (provenance : Provenance) (sequence : DurableSequence) :
    Queued (c.afterAmend p superseded successors mutation provenance sequence) := by
  have moved : Queued (superseded.foldl (supersedeDone p provenance) c) :=
    queued_foldl (fun previous h => queued_moveStored h (p.supersededForm provenance) previous.key) _ h
  have edges : Queued { superseded.foldl (supersedeDone p provenance) c with
      edges := (superseded.foldl (supersedeDone p provenance) c).edges ++ mutation.edge.toList } :=
    moved.same rfl rfl rfl rfl
  have records := queued_foldl (fun r h => queued_recallRecord h r) successors edges
  have series := queued_foldl (fun s h => queued_putSeries h s) mutation.series.toList records
  exact series.same rfl rfl rfl rfl

theorem queued_afterRevalidation (h : Queued c) (r : ReservationRecord) (now : Timestamp)
    (mutation : ReservationMutation) (provenance : Provenance) :
    Queued (c.afterRevalidation r now mutation provenance) := by
  have moved := queued_moveRecord h r (revalidatedForm r now provenance)
  have edges : Queued { c.moveRecord r (revalidatedForm r now provenance) with
      edges := (c.moveRecord r (revalidatedForm r now provenance)).edges ++
        mutation.edge.toList } := moved.same rfl rfl rfl rfl
  exact (queued_recallRecord edges mutation.record).same rfl rfl rfl rfl

/-- What `reconcile_locked` looks at are the records with a deadline that has come. -/
theorem mem_dueWork (h : Queued c) {now : Timestamp} {key : ReservationKey} :
    key ∈ c.dueWork now ↔ ∃ r, c.records[key]? = some r ∧ r.Due now := by
  unfold dueWork
  rw [List.mem_dedup, (sorted_perm _).mem_iff, List.mem_append, List.mem_append, h.activation.mem_due,
    h.expiry.mem_due, h.recalls.mem_due]
  constructor
  · rintro ((⟨r, t, stored, own, past⟩ | ⟨r, t, stored, own, past⟩) | ⟨r, t, stored, own, past⟩)
    · exact ⟨r, stored, t, .inl own, past⟩
    · exact ⟨r, stored, t, .inr (.inl own), past⟩
    · exact ⟨r, stored, t, .inr (.inr own), past⟩
  · rintro ⟨r, stored, t, own | own | own, past⟩
    · exact .inl (.inl ⟨r, t, stored, own, past⟩)
    · exact .inl (.inr ⟨r, t, stored, own, past⟩)
    · exact .inr ⟨r, t, stored, own, past⟩

/-- **A move** keeps the queues in step. -/
theorem queued_takes (idle : Idle c) {m : Move} (takes : m.Takes c d) (h : Queued c) : Queued d := by
  have logged : ∀ (record : DurableRecord) (faults : List Bool), Queued (c.logged record faults) :=
    fun _ _ => h.same rfl rfl rfl rfl
  have reindexed : ∀ {e : Coordinator} (y : CapacityIndex), Queued e → Queued (e.withIndex y) :=
    fun _ h => h.same rfl rfl rfl rfl
  have retained : ∀ {e : Coordinator} (retained : Bool) (attempt : AttemptRecord), Queued e →
      Queued (e.retain retained attempt) := by
    intro e retained attempt h
    cases retained with
    | false => exact h
    | true => exact h.same rfl rfl rfl rfl
  cases m with
  | quiet =>
    obtain ⟨faults, stats, rfl⟩ := takes
    exact h.same rfl rfl rfl rfl
  | shutdown =>
    obtain rfl := takes
    exact h.same rfl rfl rfl rfl
  | snapshot =>
    obtain ⟨-, faults, rfl⟩ := takes
    exact h.same rfl rfl rfl rfl
  | rotate =>
    obtain ⟨-, journalOpen, journalBytes, faults, rfl⟩ := takes
    exact h.same rfl rfl rfl rfl
  | boot boot now =>
    obtain ⟨-, c₁, appended, rfl⟩ := takes
    obtain ⟨faults, rfl⟩ := appended.shape
    exact h.same rfl rfl rfl rfl
  | claimant registration =>
    obtain ⟨-, -, c₁, appended, rfl⟩ := takes
    obtain ⟨faults, rfl⟩ := appended.shape
    exact h.same rfl rfl rfl rfl
  | refusal attempt =>
    obtain ⟨-, -, c₁, appended, rfl⟩ := takes
    obtain ⟨faults, rfl⟩ := appended.shape
    exact h.same rfl rfl rfl rfl
  | transition r target now reason context kept =>
    obtain ⟨faults, y, -, rfl, -⟩ := takes_transition idle takes
    exact retained kept _ (reindexed y (queued_moveRecord (logged _ faults) r _))
  | pendRecall r now reason context effect grace =>
    obtain ⟨faults, y, -, rfl, -⟩ := takes_recall idle takes
    exact retained true _ (reindexed y (queued_moveRecord
      (queued_moveRecord (logged _ faults) r _) _ _))
  | mark r applicability reason now =>
    obtain ⟨faults, y, -, rfl, -⟩ := takes_mark idle takes
    exact reindexed y (queued_moveRecord (logged _ faults) r _)
  | create p victims =>
    obtain ⟨faults, y, -, rfl, -⟩ := takes_create idle takes
    exact reindexed y (queued_afterCreate (logged _ faults) p _ _)
  | amend p superseded successors mutation =>
    obtain ⟨-, faults, y, -, rfl, -⟩ := takes_amend idle takes
    exact reindexed y (queued_afterAmend (logged _ faults) p superseded successors mutation _ _)
  | revalidate r binding now context =>
    obtain ⟨faults, y, -, rfl, -⟩ := takes_revalidate idle takes
    exact reindexed y (queued_afterRevalidation (logged _ faults) r now _ _)
  | reindexed =>
    obtain ⟨y, rfl, -, -⟩ := takes
    exact reindexed y h
  | releaseHold now id reason =>
    obtain ⟨-, rfl⟩ := takes
    obtain ⟨holds, y, left, -, -⟩ := holdsOnly_releaseHold idle.consistent.index now id reason
    rw [left]
    exact h.same rfl rfl rfl rfl
  | grantHold hold terms binding =>
    obtain ⟨-, c₁, run, rfl⟩ := takes
    obtain ⟨holds, y, rfl, -, -⟩ := (holdsOnly_indexHolds hold idle.consistent.index).of_run run
    exact h.same rfl rfl rfl rfl
  | refuseHold hold =>
    obtain ⟨e, run⟩ := takes
    obtain ⟨holds, y, rfl, -, -⟩ := (holdsOnly_indexHolds hold idle.consistent.index).of_run run
    exact h.same rfl rfl rfl rfl
  | capacity now stated withdrawals applied withdrawn =>
    obtain ⟨-, -, -, c₁, c₂, c₃, applies, withdraws, appended, rfl⟩ := takes
    have first := (within_applyCapacities stated.id now stated.resources c).of_run applies
    have second := (within_withdrawAll now withdrawals c₁).of_run withdraws
    obtain ⟨ledger, rfl, -⟩ := first.trans second
    obtain ⟨faults, rfl⟩ := appended.shape
    exact h.same rfl rfl rfl rfl
  | sawCapacity stated =>
    obtain rfl := takes
    exact h.same rfl rfl rfl rfl
  | ledger table =>
    obtain ⟨-, rfl⟩ := takes
    exact h.same rfl rfl rfl rfl
  | paths now stated changed =>
    obtain ⟨-, c₁, c₂, applies, appended, rfl⟩ := takes
    obtain ⟨paths, rfl⟩ := (within_applyPaths stated.id now stated.paths c).of_run applies
    obtain ⟨faults, rfl⟩ := appended.shape
    exact h.same rfl rfl rfl rfl
  | pathTable table =>
    obtain rfl := takes
    exact h.same rfl rfl rfl rfl
  | policy now record =>
    obtain ⟨policies, c₁, -, appended, rfl⟩ := takes
    obtain ⟨faults, rfl⟩ := appended.shape
    exact h.same rfl rfl rfl rfl
  | policyTable registry =>
    obtain rfl := takes
    exact h.same rfl rfl rfl rfl
  | fence record =>
    obtain ⟨c₁, appended, rfl⟩ := takes
    obtain ⟨faults, rfl⟩ := appended.shape
    exact h.same rfl rfl rfl rfl
  | overcommit mutation =>
    obtain ⟨c₁, appended, rfl⟩ := takes
    obtain ⟨faults, rfl⟩ := appended.shape
    exact h.same rfl rfl rfl rfl
  | retire now =>
    obtain ⟨-, c₁, appended, rfl⟩ := takes
    obtain ⟨faults, rfl⟩ := appended.shape
    refine queued_retireBatch now c.retireBatch (logged _ faults) fun key mem r stored => ?_
    obtain ⟨s, there, ended⟩ := mem_retireBatch mem
    have same : some r = some s := stored.symm.trans there
    rw [Option.some.inj same]
    exact ended

/-! ## Recovery -/

/-- Rebuilt queues are in step. -/
theorem queued_rebuildQueues
    (keyed : ∀ (k : ReservationKey) (r : ReservationRecord), c.records[k]? = some r → r.key = k) :
    Queued c.rebuildQueues := by
  have unique : ∀ r ∈ c.records.values, ∀ s ∈ c.records.values, r.key = s.key → r = s := by
    intro r hr s hs same
    obtain ⟨k, storedR⟩ := Map.mem_values.mp hr
    obtain ⟨l, storedS⟩ := Map.mem_values.mp hs
    rw [← keyed k r storedR] at storedR
    rw [← keyed l s storedS, ← same, storedR] at storedS
    exact Option.some.inj storedS
  have agenda : ∀ deadline : ReservationRecord → Option Timestamp,
      Agenda (c.records.values.foldl (fun q r => renew q r.key (deadline r)) []) deadline
        c.records := by
    intro deadline
    obtain ⟨ordered, entries⟩ := TimeQueue.mem_foldl_renew deadline unique
    refine ⟨ordered, fun t k => (entries t k).trans ⟨?_, ?_⟩⟩
    · rintro ⟨r, mem, rfl, own⟩
      obtain ⟨k, stored⟩ := Map.mem_values.mp mem
      rw [← keyed k r stored] at stored
      exact ⟨r, stored, own⟩
    · rintro ⟨r, stored, own⟩
      exact ⟨r, Map.mem_values.mpr ⟨k, stored⟩, keyed k r stored, own⟩
  have fold : ∀ (rs : List ReservationRecord) (e : Coordinator), rs.foldl syncQueues e =
      { e with
        activationQueue := rs.foldl (fun q r => renew q r.key r.activationAt) e.activationQueue
        expiryQueue := rs.foldl (fun q r => renew q r.key r.expiryAt) e.expiryQueue
        recallQueue := rs.foldl (fun q r => renew q r.key r.recallAt) e.recallQueue } := by
    intro rs
    induction rs with
    | nil => exact fun _ => rfl
    | cons r rs ih =>
      intro e
      rw [List.foldl_cons, ih, syncQueues_eq]
      rfl
  unfold rebuildQueues
  rw [fold]
  exact ⟨agenda _, agenda _, agenda _⟩

theorem queued_recover {config : Config} {disk : Disk} {faults : List Bool} {x : Contents}
    (w : Written disk x) (sound : SoundContents x) (h : recover config disk faults = .ok c) :
    Queued c := by
  obtain ⟨store, c₁, -, -, steps, indexed⟩ := recalls_recover w sound h
  have blank : Rebuilt { config, store } :=
    ⟨fun _ _ no => absurd no (by simp), fun _ _ no => absurd no (by simp),
      fun _ _ no => absurd no (by simp), fun _ _ no => absurd no (by simp), rfl⟩
  have rebuilt := rebuilt_recalls sound.recollections steps blank
  obtain ⟨y, rfl⟩ := (ensures_rebuildIndex_shape c₁.rebuildQueues).of_run indexed
  exact (queued_rebuildQueues rebuilt.keyed).same rfl rfl rfl rfl

end Coordinator

/-- **The queues of every reachable coordinator** are the deadlines of its records. -/
theorem System.reachable_queued {as : List Action} {c : Coordinator} (h : System.run as = .up c) :
    c.Queued := by
  have keeps : System.Keeps (fun _ _ => True) (fun c _ => c.Queued) (fun _ _ => True) :=
    { move := fun _ _ idle _ queued takes => Coordinator.queued_takes idle takes queued
      recover := fun _ w sound _ h => Coordinator.queued_recover w sound h
      close := fun _ _ => trivial }
  have held := System.holds_always keeps (System.holds_initial trivial) as
  rw [show after System.step System.initial as = .up c from h] at held
  obtain ⟨-, x, -, -, queued⟩ := held
  exact queued

end Brf
