import Brf.Reopening

/-!
# What is remembered

An abstract model of the store: which generations it holds and has archived, which generation of an
identity is the current one, and which attempts are retained in which order. Nothing else of a
record matters here.

* `Memory` is that model, and `Memory.recollect` the four ways in which it grows: a registration, an
  archived record read back, an attempt, a retirement.
* `Coordinator.memory` is the memory of a coordinator.
* `Move.recollections` is what a move adds to it.

Results, the refinement in both directions of the directory: `memory_takes` (a move adds its
recollections to the memory), and `memory_recover` (recovery adds those of the directory to an empty
memory).
-/

namespace Brf

open Brf.Lib
open Coordinator (Recollection Move Idle Appended)

/-- What the store remembers. -/
structure Memory where
  live : ReservationKey → Bool
  archive : ReservationId → Option ReservationGeneration
  current : ReservationId → Option ReservationGeneration
  attempts : Map AttemptId AttemptRecord
  order : List AttemptId
  bound : Nat

namespace Memory

/-- The memory of an empty store. -/
def empty (bound : Nat) : Memory where
  live _ := false
  archive _ := none
  current _ := none
  attempts := ∅
  order := []
  bound

/-- A generation is registered. -/
def register (m : Memory) (key : ReservationKey) : Memory :=
  { m with
    live := fun k => k = key || m.live k
    current := fun id =>
      if id = key.id ∧ (∀ current ∈ m.current key.id, current < key.generation) then
        some key.generation
      else m.current id }

/-- A generation is in the archive, as the one of its identity. -/
def file (m : Memory) (key : ReservationKey) : Memory :=
  { m with archive := Function.update m.archive key.id (some key.generation) }

/-- A generation leaves the store for the archive. -/
def retire (m : Memory) (key : ReservationKey) : Memory :=
  if m.live key then { m.file key with live := fun k => k ≠ key && m.live k } else m

/-- An attempt is retained, and the oldest ones beyond the bound are not any more. -/
def remember (m : Memory) (attempt : AttemptRecord) : Memory :=
  let order :=
    if m.attempts[attempt.attempt]?.isSome then m.order else m.order ++ [attempt.attempt]
  let kept :=
    Coordinator.evictAttempts m.bound (m.attempts.insert attempt.attempt attempt) order
  { m with attempts := kept.1, order := kept.2 }

/-- The memory with one recollection more. -/
def recollect (m : Memory) : Recollection → Memory
  | .record r => m.register r.key
  | .archived r => (m.file r.key).register r.key
  | .attempt a => m.remember a
  | .retire key => m.retire key

end Memory

namespace Coordinator

/-- The memory of a coordinator. -/
def memory (c : Coordinator) : Memory where
  live key := c.records[key]?.isSome
  archive id := c.retired[id]?.map ReservationRecord.generation
  current id := c.currentGeneration[id]?
  attempts := c.attempts
  order := c.attemptOrder
  bound := c.config.maxAttempts

/-- Records are stored under their own keys. -/
def Keyed (c : Coordinator) : Prop :=
  ∀ (k : ReservationKey) (r : ReservationRecord), c.records[k]? = some r → r.key = k

/-- The memory does not look at the other fields. -/
theorem memory_congr {c d : Coordinator} (records : d.records = c.records)
    (retired : d.retired = c.retired) (currentGeneration : d.currentGeneration = c.currentGeneration)
    (attempts : d.attempts = c.attempts) (attemptOrder : d.attemptOrder = c.attemptOrder)
    (config : d.config = c.config) : d.memory = c.memory := by
  unfold memory
  rw [records, retired, currentGeneration, attempts, attemptOrder, config]

theorem Elsewhere.memory {c d : Coordinator} (h : Elsewhere c d) : d.memory = c.memory :=
  memory_congr h.records h.retired h.currentGeneration h.attempts h.attemptOrder h.config

/-! ## One record -/

/-- A record that takes the place of one under its key. -/
theorem live_insert {records : Map ReservationKey ReservationRecord} {next : ReservationRecord}
    (stored : records[next.key]?.isSome = true) (k : ReservationKey) :
    (records.insert next.key next)[k]?.isSome = records[k]?.isSome := by
  rw [Map.get_insert]
  by_cases same : k = next.key
  · rw [if_pos same, same, stored]
    rfl
  · rw [if_neg same]

theorem memory_putRecord {c : Coordinator} {next : ReservationRecord}
    (stored : c.records[next.key]?.isSome = true) : (c.putRecord next).memory = c.memory := by
  unfold memory
  congr 1
  funext k
  exact live_insert stored k

theorem memory_moveRecord {c : Coordinator} (r : ReservationRecord) {next : ReservationRecord}
    (stored : c.records[next.key]?.isSome = true) : (c.moveRecord r next).memory = c.memory := by
  obtain ⟨a, e, q, l, n, shape⟩ := moveRecord_shape c r next
  rw [shape]
  exact memory_putRecord stored

theorem keyed_moveRecord {c : Coordinator} (h : Keyed c) (r next : ReservationRecord) :
    Keyed (c.moveRecord r next) := by
  intro k s there
  rw [moveRecord_records] at there
  exact insert_keyed h rfl k s there

theorem memory_registerRecord (c : Coordinator) (r : ReservationRecord) :
    (c.registerRecord r).memory = c.memory.register r.key := by
  have live : ∀ k : ReservationKey, (c.records.insert r.key r)[k]?.isSome =
      (decide (k = r.key) || c.records[k]?.isSome) := by
    intro k
    rw [Map.get_insert]
    by_cases same : k = r.key
    · rw [if_pos same, decide_eq_true same]
      rfl
    · rw [if_neg same, decide_eq_false same]
      rfl
  have current : ∀ id : ReservationId, (c.registerRecord r).currentGeneration[id]? =
      if id = r.key.id ∧ ∀ current ∈ c.currentGeneration[r.key.id]?, current < r.key.generation
        then some r.key.generation else c.currentGeneration[id]? := by
    intro id
    unfold registerRecord
    dsimp only
    change (if _ then _ else _ : Map ReservationId ReservationGeneration)[id]? =
      if id = r.id ∧ ∀ current ∈ c.currentGeneration[r.id]?, current < r.generation
        then some r.generation else c.currentGeneration[id]?
    cases known : c.currentGeneration[r.id]? with
    | none =>
      simp only [Option.mem_def, reduceCtorEq, false_implies, implies_true, and_true, if_true]
      exact Map.get_insert _ _ _ _
    | some g =>
      simp only [Option.mem_def, Option.some.injEq, forall_eq']
      by_cases newer : g < r.generation
      · simp only [newer, decide_true, if_true, and_true]
        exact Map.get_insert _ _ _ _
      · simp only [newer, decide_false, Bool.false_eq_true, if_false, and_false]
  have live' := funext live
  have current' := funext current
  unfold memory Memory.register
  dsimp only
  rw [current', ← live']
  rfl

theorem memory_recallRecord (c : Coordinator) (r : ReservationRecord) :
    (c.recallRecord r).memory = c.memory.register r.key := by
  obtain ⟨a, e, q, shape⟩ := recallRecord_shape c r
  rw [shape, ← memory_registerRecord]
  rfl

theorem keyed_recallRecord {c : Coordinator} (h : Keyed c) (r : ReservationRecord) :
    Keyed (c.recallRecord r) := by
  intro k s there
  rw [recallRecord_records] at there
  exact insert_keyed h rfl k s there

/-- A record that enters the archive under its own identity. -/
theorem archive_insert {retired : Map ReservationId ReservationRecord} {key : ReservationKey}
    {r : ReservationRecord} (generation : r.generation = key.generation) (id : ReservationId) :
    (retired.insert key.id r)[id]?.map ReservationRecord.generation =
      Function.update (fun id => retired[id]?.map ReservationRecord.generation) key.id
        (some key.generation) id := by
  rw [Map.get_insert]
  by_cases same : id = key.id
  · rw [if_pos same, same, Function.update_self, ← generation]
    rfl
  · rw [if_neg same, Function.update_of_ne same]

theorem memory_recallRetired (c : Coordinator) (r : ReservationRecord) :
    (c.recallRetired r).memory = (c.memory.file r.key).register r.key := by
  unfold recallRetired
  rw [memory_registerRecord]
  have archive := funext (@archive_insert c.retired r.key r rfl)
  unfold memory Memory.file
  dsimp only
  rw [← archive]
  rfl

/-- A record leaves a store for the archive, in whatever form. -/
theorem memory_archive {c : Coordinator} {key : ReservationKey} {r r' : ReservationRecord}
    (stored : c.records[key]? = some r) (generation : r'.generation = key.generation)
    (historyCount : Nat) :
    ({ c with retired := c.retired.insert key.id r', records := c.records.erase key,
              historyCount } : Coordinator).memory = c.memory.retire key := by
  have archive := funext (@archive_insert c.retired _ _ generation)
  have live : ∀ k : ReservationKey, (c.records.erase key)[k]?.isSome =
      (decide (k ≠ key) && c.records[k]?.isSome) := by
    intro k
    rw [Map.get_erase]
    by_cases same : k = key
    · rw [if_pos same, decide_eq_false (not_not.mpr same)]
      rfl
    · rw [if_neg same, decide_eq_true same]
      rfl
  have live' := funext live
  have there : c.memory.live key = true := by
    change c.records[key]?.isSome = true
    rw [stored]
    rfl
  unfold Memory.retire
  rw [if_pos there]
  unfold memory Memory.file
  dsimp only
  rw [archive, ← live']

theorem memory_replayRetire {c : Coordinator} (h : Keyed c) (key : ReservationKey) :
    (c.replayRetire key).memory = c.memory.retire key := by
  unfold replayRetire
  cases stored : c.records[key]? with
  | none =>
    have absent : c.memory.live key = false := by
      change c.records[key]?.isSome = false
      rw [stored]
      rfl
    unfold Memory.retire
    rw [absent]
    rfl
  | some r => exact memory_archive stored (congrArg ReservationKey.generation (h key r stored)) _

theorem memory_retireRecord {c : Coordinator} (h : Keyed c) (now : Timestamp)
    (key : ReservationKey) : (retireRecord now c key).memory = c.memory.retire key := by
  unfold retireRecord
  cases stored : c.records[key]? with
  | none =>
    have absent : c.memory.live key = false := by
      change c.records[key]?.isSome = false
      rw [stored]
      rfl
    unfold Memory.retire
    rw [absent]
    rfl
  | some r =>
    exact @memory_archive _ _ _ (archived r now) stored
      (congrArg ReservationKey.generation (h key r stored)) _

theorem keyed_retireRecord {c : Coordinator} (h : Keyed c) (now : Timestamp)
    (key : ReservationKey) : Keyed (retireRecord now c key) :=
  fun k r there => h k r (retireRecord_get there)

/-! ## Replay -/

theorem memory_recollect {c : Coordinator} (h : Keyed c) (t : Recollection) :
    (c.recollect t).memory = c.memory.recollect t := by
  cases t with
  | record r => exact memory_recallRecord c r
  | archived r => exact memory_recallRetired c r
  | attempt a => rfl
  | retire key => exact memory_replayRetire h key

/-- **Replay** adds to the memory what it recalls. -/
theorem memory_recalls {ts : List Recollection} (own : ∀ t ∈ ts, t.Sound) {c c' : Coordinator}
    (steps : Recalls ts c c') (h : Rebuilt c) : c'.memory = ts.foldl Memory.recollect c.memory := by
  induction steps with
  | refl => rfl
  | step before last ih =>
    have first := fun t mem => own t (List.mem_append_left _ mem)
    have rebuilt := rebuilt_recalls first before h
    rw [List.foldl_append, ← ih first h]
    cases last with
    | moved _ key r next stored named terms authority =>
      refine memory_moveRecord r ?_
      rw [named, rebuilt.keyed key r stored, stored]
      rfl
    | put _ key r next stored named terms authority =>
      refine memory_putRecord ?_
      rw [named, rebuilt.keyed key r stored, stored]
      rfl
    | elsewhere _ _ same => exact same.memory
    | recollect _ t => exact memory_recollect rebuilt.keyed t

/-- **Recovery** adds the recollections of the directory to an empty memory. -/
theorem memory_recover {config : Config} {disk : Disk} {faults : List Bool} {c : Coordinator}
    {x : Contents} (w : Written disk x) (sound : SoundContents x)
    (h : recover config disk faults = .ok c) :
    c.memory = x.recollections.foldl Memory.recollect (Memory.empty config.maxAttempts) := by
  obtain ⟨store, c₁, -, -, steps, indexed⟩ := recalls_recover w sound h
  have blank : Rebuilt { config, store } :=
    ⟨fun _ _ no => absurd no (by simp), fun _ _ no => absurd no (by simp),
      fun _ _ no => absurd no (by simp), fun _ _ no => absurd no (by simp), rfl⟩
  have start : ({ config, store } : Coordinator).memory = Memory.empty config.maxAttempts := rfl
  have rest : c.memory = c₁.memory := by
    obtain ⟨a, e, q, queued⟩ := rebuildQueues_shape c₁
    obtain ⟨y, rfl⟩ := (ensures_rebuildIndex_shape c₁.rebuildQueues).of_run indexed
    rw [queued]
    rfl
  rw [rest, memory_recalls sound.recollections steps blank, start]

/-! ## Moves -/

/-- What a move adds to the memory. -/
def Move.recollections (c : Coordinator) : Move → List Recollection
  | .refusal attempt => [.attempt { attempt with resultSequence := c.store.lastSequence + 1 }]
  | .transition r target now _ context retained =>
    if retained then [.attempt (handedAttempt r target now context (c.store.lastSequence + 1))]
    else []
  | .pendRecall r now _ context _ _ =>
    [.attempt (handedAttempt r .recallPending now context (c.store.lastSequence + 1))]
  | .create p victims =>
    ((c.createMutation p victims).record :: (c.createMutation p victims).members).map .record ++
      [.attempt (attemptFor p.context p.fingerprint .committable
        (c.createMutation p victims).record.key (c.store.lastSequence + 1) p.terms.claimant p.now)]
  | .amend p _ successors mutation =>
    successors.map .record ++ [.attempt (amendAttempt p mutation.record (c.store.lastSequence + 1))]
  | .revalidate r binding now context => [.record (c.revalidatedSuccessor r binding now context)]
  | .retire _ => c.retireBatch.map .retire
  | _ => []

theorem memory_foldl_recallRecord : ∀ (rs : List ReservationRecord) (c : Coordinator),
    (rs.foldl recallRecord c).memory = (rs.map Recollection.record).foldl Memory.recollect c.memory
  | [], _ => rfl
  | r :: rs, c => by
    rw [List.foldl_cons, memory_foldl_recallRecord rs, memory_recallRecord]
    rfl

theorem memory_foldl_retireRecord (now : Timestamp) : ∀ (keys : List ReservationKey)
    {c : Coordinator}, Keyed c → (keys.foldl (retireRecord now) c).memory =
      (keys.map Recollection.retire).foldl Memory.recollect c.memory
  | [], _, _ => rfl
  | key :: keys, c, h => by
    rw [List.foldl_cons, memory_foldl_retireRecord now keys (keyed_retireRecord h now key),
      memory_retireRecord h]
    rfl

/-- A loop of moves of stored records. -/
theorem memory_foldl_moveStored {α : Type} {next : α → ReservationRecord → ReservationRecord}
    {key : α → ReservationKey} (named : ∀ x r, (next x r).key = r.key) :
    ∀ (xs : List α) {c : Coordinator}, Keyed c →
      (xs.foldl (fun c x => moveStored (next x) c (key x)) c).memory = c.memory ∧
        Keyed (xs.foldl (fun c x => moveStored (next x) c (key x)) c)
  | [], _, h => ⟨rfl, h⟩
  | x :: xs, c, h => by
    have turn : (moveStored (next x) c (key x)).memory = c.memory ∧
        Keyed (moveStored (next x) c (key x)) := by
      unfold moveStored
      cases stored : c.records[key x]? with
      | none => exact ⟨rfl, h⟩
      | some r =>
        refine ⟨memory_moveRecord r ?_, keyed_moveRecord h r _⟩
        rw [named, h _ r stored, stored]
        rfl
    have rest := @memory_foldl_moveStored _ _ key named xs _ turn.2
    exact ⟨rest.1.trans turn.1, rest.2⟩

/-- A loop that leaves the memory alone. -/
theorem memory_foldl_same {α : Type} {f : Coordinator → α → Coordinator}
    (turn : ∀ c x, (f c x).memory = c.memory) :
    ∀ (xs : List α) (c : Coordinator), (xs.foldl f c).memory = c.memory
  | [], _ => rfl
  | x :: xs, c => (memory_foldl_same turn xs (f c x)).trans (turn c x)

theorem memory_afterCreate {c : Coordinator} (h : Keyed c) (p : CreatePlan)
    (mutation : ReservationMutation) (sequence : DurableSequence) :
    (c.afterCreate p mutation sequence).memory =
      ((mutation.record :: mutation.members).map Recollection.record ++
        [Recollection.attempt (attemptFor p.context p.fingerprint .committable mutation.record.key
          sequence p.terms.claimant p.now)]).foldl Memory.recollect c.memory := by
  have companions := @memory_foldl_moveStored _ StateMutation.applyTo
    (fun m => ⟨m.id, m.generation⟩) (fun _ _ => rfl) mutation.companions _ h
  have records := memory_foldl_recallRecord (mutation.record :: mutation.members)
    (mutation.companions.foldl companionDone c)
  rw [show (mutation.companions.foldl companionDone c).memory = c.memory from companions.1]
    at records
  rw [List.foldl_append, ← records]
  unfold afterCreate
  dsimp only
  generalize (mutation.record :: mutation.members).foldl recallRecord
    (mutation.companions.foldl companionDone c) = d
  have series := memory_foldl_same (f := putSeries) (fun _ _ => rfl) mutation.series.toList d
  rw [← series]
  generalize mutation.series.toList.foldl putSeries d = d'
  have holds := memory_foldl_same (f := consumeHold p) (fun c id => by
    unfold consumeHold
    split
    · rfl
    · rfl) p.holds (d'.rememberAttempt (attemptFor p.context p.fingerprint .committable
      mutation.record.key sequence p.terms.claimant p.now))
  exact holds

theorem memory_afterAmend {c : Coordinator} (h : Keyed c) (p : AmendPlan)
    (superseded successors : List ReservationRecord) (mutation : ReservationMutation)
    (provenance : Provenance) (sequence : DurableSequence) :
    (c.afterAmend p superseded successors mutation provenance sequence).memory =
      (successors.map Recollection.record ++
        [Recollection.attempt (amendAttempt p mutation.record sequence)]).foldl Memory.recollect
          c.memory := by
  have moved := @memory_foldl_moveStored _ (fun _ => p.supersededForm provenance)
    ReservationRecord.key (fun _ _ => rfl) superseded _ h
  have moved' : (superseded.foldl (supersedeDone p provenance) c).memory = c.memory := moved.1
  unfold afterAmend
  dsimp only
  generalize superseded.foldl (supersedeDone p provenance) c = d at moved' ⊢
  have records := memory_foldl_recallRecord successors
    { d with edges := d.edges ++ mutation.edge.toList }
  rw [show ({ d with edges := d.edges ++ mutation.edge.toList } : Coordinator).memory = c.memory
    from moved'] at records
  rw [List.foldl_append, ← records]
  generalize successors.foldl recallRecord { d with edges := d.edges ++ mutation.edge.toList } = d'
  have series := memory_foldl_same (f := putSeries) (fun _ _ => rfl) mutation.series.toList d'
  rw [← series]
  rfl

theorem memory_afterRevalidation {c : Coordinator} {r : ReservationRecord}
    (stored : c.records[r.key]? = some r) (now : Timestamp) (mutation : ReservationMutation)
    (provenance : Provenance) : (c.afterRevalidation r now mutation provenance).memory =
      c.memory.recollect (.record mutation.record) := by
  unfold afterRevalidation
  dsimp only
  have moved : (c.moveRecord r (revalidatedForm r now provenance)).memory = c.memory := by
    refine memory_moveRecord r ?_
    change c.records[r.key]?.isSome = true
    rw [stored]
    rfl
  generalize c.moveRecord r (revalidatedForm r now provenance) = d at moved ⊢
  have recalled := memory_recallRecord { d with edges := d.edges ++ mutation.edge.toList }
    mutation.record
  rw [show ({ d with edges := d.edges ++ mutation.edge.toList } : Coordinator).memory = c.memory
    from moved] at recalled
  exact recalled
theorem keyed_logged {c : Coordinator} (h : Keyed c) (d : DurableRecord) (faults : List Bool) :
    Keyed (c.logged d faults) := h

theorem memory_logged (c : Coordinator) (d : DurableRecord) (faults : List Bool) :
    (c.logged d faults).memory = c.memory := rfl

theorem memory_withIndex (c : Coordinator) (y : CapacityIndex) : (c.withIndex y).memory = c.memory :=
  rfl

theorem Appended.memory {d : DurableRecord} {c c₁ : Coordinator} (h : Appended d c c₁) :
    c₁.memory = c.memory := by
  obtain ⟨faults, rfl⟩ := h.shape
  rfl

theorem Appended.keyed {d : DurableRecord} {c c₁ : Coordinator} (appended : Appended d c c₁)
    (h : Keyed c) : Keyed c₁ := by
  obtain ⟨faults, rfl⟩ := appended.shape
  exact h

/-- **A move** adds its recollections to the memory. -/
theorem memory_takes {c c' : Coordinator} (idle : Idle c) {m : Move} (takes : m.Takes c c') :
    c'.memory = (m.recollections c).foldl Memory.recollect c.memory := by
  have keyed : Keyed c := idle.consistent.keyed
  have there : ∀ {r : ReservationRecord}, c.records[r.key]? = some r →
      ∀ next : ReservationRecord, next.key = r.key → c.records[next.key]?.isSome = true := by
    intro r stored next named
    rw [named, stored]
    rfl
  cases m with
  | quiet =>
    obtain ⟨faults, stats, rfl⟩ := takes
    rfl
  | shutdown =>
    obtain rfl := takes
    rfl
  | snapshot =>
    obtain ⟨-, faults, rfl⟩ := takes
    rfl
  | rotate =>
    obtain ⟨-, journalOpen, journalBytes, faults, rfl⟩ := takes
    rfl
  | boot boot now =>
    obtain ⟨-, c₁, appended, rfl⟩ := takes
    exact appended.memory
  | claimant registration =>
    obtain ⟨-, -, c₁, appended, rfl⟩ := takes
    exact appended.memory
  | refusal attempt =>
    obtain ⟨-, -, c₁, appended, rfl⟩ := takes
    rw [appended.lastSequence]
    change c₁.memory.remember _ = c.memory.remember _
    rw [appended.memory]
  | transition r target now reason context retained =>
    have stored := takes.1
    obtain ⟨faults, y, -, left, -⟩ := takes_transition idle takes
    obtain ⟨key, -, -⟩ := transitioned_kept c r target now reason context 0 (c.store.lastSequence + 1)
    have moved := memory_moveRecord (c := c.logged (.reservationState
      (transitionMutation r target now reason context 0)) faults) r (there stored _ key)
    rw [left]
    cases retained with
    | false => exact moved
    | true => exact congrArg (Memory.remember · _) moved
  | pendRecall r now reason context effect grace =>
    have stored := takes.1
    obtain ⟨faults, y, -, left, -⟩ := takes_recall idle takes
    obtain ⟨key, -, -⟩ := transitioned_kept c r .recallPending now reason context effect
      (c.store.lastSequence + 1)
    have moved := memory_moveRecord (c := c.logged (.reservationState
      (transitionMutation r .recallPending now reason context effect)) faults) r (there stored _ key)
    generalize c.transitioned r .recallPending now reason context effect
      (c.store.lastSequence + 1) = next at left key moved
    have graced := memory_moveRecord (c := (c.logged (.reservationState
      (transitionMutation r .recallPending now reason context effect)) faults).moveRecord r next)
      next (by
        rw [moveRecord_records, Map.get_insert]
        exact congrArg Option.isSome (if_pos (show (next.graced grace).key = next.key from rfl)))
    rw [left]
    exact congrArg (Memory.remember · _) (graced.trans moved)
  | mark r applicability reason now =>
    have stored := takes.1
    obtain ⟨faults, y, -, left, -⟩ := takes_mark idle takes
    rw [left]
    exact memory_moveRecord (c := c.logged _ faults) r (there stored _ rfl)
  | create p victims =>
    obtain ⟨faults, y, -, left, -⟩ := takes_create idle takes
    rw [left]
    exact memory_afterCreate (keyed_logged keyed _ faults) p _ _
  | amend p superseded successors mutation =>
    obtain ⟨-, faults, y, -, left, -⟩ := takes_amend idle takes
    rw [left]
    exact memory_afterAmend (keyed_logged keyed _ faults) p superseded successors mutation _ _
  | revalidate r binding now context =>
    have stored := takes.2.1
    obtain ⟨faults, y, -, left, -⟩ := takes_revalidate idle takes
    rw [left]
    exact memory_afterRevalidation (c := c.logged _ faults) stored now _ _
  | reindexed =>
    obtain ⟨y, rfl, -, -⟩ := takes
    rfl
  | releaseHold now id reason =>
    obtain ⟨-, rfl⟩ := takes
    obtain ⟨holds, y, left, -, -⟩ := holdsOnly_releaseHold idle.consistent.index now id reason
    rw [left]
    rfl
  | grantHold hold terms binding =>
    obtain ⟨-, c₁, run, rfl⟩ := takes
    obtain ⟨holds, y, rfl, -, -⟩ := (holdsOnly_indexHolds hold
      idle.consistent.index).of_run run
    rfl
  | refuseHold hold =>
    obtain ⟨e, run⟩ := takes
    obtain ⟨holds, y, rfl, -, -⟩ := (holdsOnly_indexHolds hold
      idle.consistent.index).of_run run
    rfl
  | capacity now stated withdrawals applied withdrawn =>
    obtain ⟨-, -, -, c₁, c₂, c₃, applies, withdraws, appended, rfl⟩ := takes
    have first := (within_applyCapacities stated.id now stated.resources c).of_run applies
    have second := (within_withdrawAll now withdrawals c₁).of_run withdraws
    obtain ⟨ledger, rfl, -⟩ := first.trans second
    exact appended.memory
  | sawCapacity stated =>
    obtain rfl := takes
    rfl
  | ledger table =>
    obtain ⟨-, rfl⟩ := takes
    rfl
  | paths now stated changed =>
    obtain ⟨-, c₁, c₂, applies, appended, rfl⟩ := takes
    obtain ⟨paths, rfl⟩ := (within_applyPaths stated.id now stated.paths c).of_run applies
    exact appended.memory
  | pathTable table =>
    obtain rfl := takes
    rfl
  | policy now record =>
    obtain ⟨policies, c₁, -, appended, rfl⟩ := takes
    exact appended.memory
  | policyTable registry =>
    obtain rfl := takes
    rfl
  | fence record =>
    obtain ⟨c₁, appended, rfl⟩ := takes
    exact appended.memory
  | overcommit mutation =>
    obtain ⟨c₁, appended, rfl⟩ := takes
    exact appended.memory
  | retire now =>
    obtain ⟨-, c₁, appended, rfl⟩ := takes
    rw [memory_foldl_retireRecord now _ (appended.keyed keyed), appended.memory]
    rfl
end Coordinator

end Brf
