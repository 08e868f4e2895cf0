import Brf.Lib.Versions
import Brf.Memory

/-!
# The counters of the store

What `live_count` and `history_count` count, as turns of an abstract store of generations.

* `Coordinator.versions` are the stored generations with whether they have ended, and the current
  generation of every identity.
* `Counted c`: the two counters are exact. `Balanced c` adds what an exact count rests on: whatever is
  stored is known, and what the archive has taken up is not stored as a live generation.
* `Turns ts c c'`: from `c` to `c'` the generations have made the turns `ts`, and the counters stay
  balanced if all of them were proper.

Results: what every update of a record comes to (`turns_register`, `turns_move`, `turns_retire` and
their siblings), and `turns_recover`: recovery makes the turns of the directory.
-/

namespace Brf

open Brf.Lib

namespace Coordinator

/-- A change of the stored generations. -/
abbrev StoreTurn := Turn ReservationId ReservationGeneration

/-- The stored generations, and the current ones. -/
def versions (c : Coordinator) : Versions ReservationId ReservationGeneration where
  standing id generation := c.records[(⟨id, generation⟩ : ReservationKey)]?.map fun r =>
    isTerminal r.state
  current id := c.currentGeneration[id]?

/-- **The counters are exact.** -/
structure Counted (c : Coordinator) : Prop where
  live : c.liveCount = c.records.values.countP fun r => !isTerminal r.state
  history : c.historyCount = c.records.values.countP fun r => isTerminal r.state

/-- The counters are exact, and will be after proper turns. -/
structure Balanced (c : Coordinator) : Prop where
  counted : c.Counted
  tidy : c.versions.Tidy
  archive : ∀ (id : ReservationId) (r : ReservationRecord), c.retired[id]? = some r →
    isTerminal r.state = true ∧ c.versions.Shelved r.id r.generation

/-- The generations have made the turns, and the counters have followed the proper ones. -/
def Turns (ts : List StoreTurn) (c c' : Coordinator) : Prop :=
  Keyed c → Keyed c' ∧ c'.versions = after Versions.turn c.versions ts ∧
    (Along Versions.turn Versions.Proper c.versions ts → Balanced c → Balanced c')

instance gradedTurns : Op.Graded Turns where
  refl _ keyed := ⟨keyed, rfl, fun _ balanced => balanced⟩
  trans first later keyed := by
    obtain ⟨keyed₁, same₁, balances₁⟩ := first keyed
    obtain ⟨keyed₂, same₂, balances₂⟩ := later keyed₁
    rw [same₁, ← after_append] at same₂
    refine ⟨keyed₂, same₂, fun along balanced => ?_⟩
    obtain ⟨before, behind⟩ := (along_append Versions.turn _ _ _).mp along
    exact balances₂ (same₁ ▸ behind) (balances₁ before balanced)

/-! ## What is left alone -/

/-- The records and the counters are the same. -/
structure Uncounted (c c' : Coordinator) : Prop where
  records : c'.records = c.records
  retired : c'.retired = c.retired
  currentGeneration : c'.currentGeneration = c.currentGeneration
  liveCount : c'.liveCount = c.liveCount
  historyCount : c'.historyCount = c.historyCount

theorem Elsewhere.uncounted {c c' : Coordinator} (h : Elsewhere c c') : Uncounted c c' :=
  ⟨h.records, h.retired, h.currentGeneration, h.liveCount, h.historyCount⟩

theorem Uncounted.versions {c c' : Coordinator} (h : Uncounted c c') : c'.versions = c.versions := by
  unfold Coordinator.versions
  rw [h.records, h.currentGeneration]

theorem Uncounted.turns {c c' : Coordinator} (h : Uncounted c c') : Turns [] c c' := by
  intro keyed
  refine ⟨?_, h.versions, fun _ balanced => ?_⟩
  · unfold Keyed
    rw [h.records]
    exact keyed
  · refine ⟨⟨?_, ?_⟩, ?_, ?_⟩
    · rw [h.liveCount, h.records]
      exact balanced.counted.live
    · rw [h.historyCount, h.records]
      exact balanced.counted.history
    · rw [h.versions]
      exact balanced.tidy
    · rw [h.versions, h.retired]
      exact balanced.archive

/-- Turns, and then a change that leaves the records alone. -/
theorem Turns.uncounted {ts : List StoreTurn} {a b c : Coordinator} (h : Turns ts a b)
    (same : Uncounted b c) : Turns ts a c := by
  have both := Op.Graded.trans h same.turns
  rwa [List.append_nil] at both

/-- A change that leaves the records alone, and then turns. -/
theorem Uncounted.then {ts : List StoreTurn} {a b c : Coordinator} (same : Uncounted a b)
    (h : Turns ts b c) : Turns ts a c := Op.Graded.trans same.turns h

/-! ## One record -/

/-- How many values satisfy a predicate once one has entered. -/
theorem countP_insert (records : Map ReservationKey ReservationRecord) (r : ReservationRecord)
    (p : ReservationRecord → Bool) :
    (Map.values (records.insert r.key r)).countP p =
      (Map.values (records.erase r.key)).countP p + if p r then 1 else 0 := by
  rw [(Map.values_insert records r.key r).countP_eq, List.countP_cons]

/-- How many values satisfy a predicate before one leaves. -/
theorem countP_stored {records : Map ReservationKey ReservationRecord} {key : ReservationKey}
    {r : ReservationRecord} (stored : records[key]? = some r) (p : ReservationRecord → Bool) :
    records.values.countP p =
      (Map.values (records.erase key)).countP p + if p r then 1 else 0 := by
  rw [(Map.values_get stored).countP_eq, List.countP_cons]

theorem standing_insert (c : Coordinator) (r : ReservationRecord) (id : ReservationId)
    (generation : ReservationGeneration) :
    ((c.records.insert r.key r)[(⟨id, generation⟩ : ReservationKey)]?.map fun r =>
      isTerminal r.state) = if id = r.id ∧ generation = r.generation
        then some (isTerminal r.state) else c.versions.standing id generation := by
  rw [Map.get_insert]
  by_cases same : id = r.id ∧ generation = r.generation
  · obtain ⟨rfl, rfl⟩ := same
    exact (congrArg _ (if_pos rfl)).trans (if_pos ⟨rfl, rfl⟩).symm
  · rw [if_neg same, if_neg fun eq => same ⟨congrArg ReservationKey.id eq,
      congrArg ReservationKey.generation eq⟩]
    rfl

/-- What is stored under a key. -/
theorem standing_stored {c : Coordinator} {key : ReservationKey} {r : ReservationRecord}
    (stored : c.records[key]? = some r) :
    c.versions.standing key.id key.generation = some (isTerminal r.state) := by
  change (c.records[key]?.map _ : Option Bool) = _
  rw [stored]
  rfl

theorem current_registerRecord (c : Coordinator) (r : ReservationRecord) (id : ReservationId) :
    (c.registerRecord r).currentGeneration[id]? =
      if id = r.id then some ((c.currentGeneration[r.id]?).elim r.generation (max r.generation))
      else c.currentGeneration[id]? := by
  change (if _ then _ else _ : Map ReservationId ReservationGeneration)[id]? = _
  cases known : c.currentGeneration[r.id]? with
  | none =>
    simp only [if_true]
    exact Map.get_insert _ _ _ _
  | some g =>
    rw [Option.elim_some]
    by_cases newer : g < r.generation
    · simp only [newer, decide_true, if_true, max_eq_left newer.le]
      exact Map.get_insert _ _ _ _
    · simp only [newer, decide_false, Bool.false_eq_true, if_false,
        max_eq_right (not_lt.mp newer)]
      by_cases same : id = r.id
      · rw [if_pos same, same, known]
      · rw [if_neg same]

theorem versions_registerRecord (c : Coordinator) (r : ReservationRecord) :
    (c.registerRecord r).versions =
      c.versions.turn (.put r.id r.generation (isTerminal r.state)) := by
  refine Versions.ext ?_ ?_
  · funext id generation
    exact standing_insert c r id generation
  · funext id
    exact current_registerRecord c r id

/-- The counters of a registration that mistakes no generation for another. -/
theorem counted_registerRecord {c : Coordinator} (h : Balanced c) {r : ReservationRecord}
    (proper : c.versions.Proper (.put r.id r.generation (isTerminal r.state))) :
    (c.registerRecord r).Counted := by
  have counts := countP_insert c.records r
  cases stored : c.records[r.key]? with
  | none =>
    have absent := Map.erase_absent stored
    have live : (c.registerRecord r).liveCount =
        if !isTerminal r.state then c.liveCount + 1 else c.liveCount := by
      unfold registerRecord
      simp [stored]
    have history : (c.registerRecord r).historyCount =
        if isTerminal r.state then c.historyCount + 1 else c.historyCount := by
      unfold registerRecord
      simp [stored]
    refine ⟨live.trans ?_, history.trans ?_⟩
    · change _ = (Map.values (c.records.insert r.key r)).countP _
      rw [counts, absent, h.counted.live]
      cases isTerminal r.state <;> rfl
    · change _ = (Map.values (c.records.insert r.key r)).countP _
      rw [counts, absent, h.counted.history]
      cases isTerminal r.state <;> rfl
  | some w =>
    -- What is stored there has ended exactly if the new record has.
    have stands := standing_stored stored
    have same : isTerminal w.state = isTerminal r.state := by
      have known := h.tidy r.id r.generation (by
        rw [show c.versions.standing r.id r.generation = _ from stands]
        simp)
      cases terminal : isTerminal r.state with
      | false =>
        rw [terminal] at proper
        exact Option.some.inj (stands.symm.trans (proper known))
      | true =>
        rw [terminal] at proper
        cases old : isTerminal w.state with
        | false =>
          rw [old] at stands
          exact absurd stands proper
        | true => rfl
    have live : (c.registerRecord r).liveCount = c.liveCount := by
      unfold registerRecord
      simp [stored]
    have history : (c.registerRecord r).historyCount = c.historyCount := by
      unfold registerRecord
      simp [stored]
    refine ⟨live.trans ?_, history.trans ?_⟩
    · change _ = (Map.values (c.records.insert r.key r)).countP _
      rw [counts, h.counted.live, countP_stored stored, same]
    · change _ = (Map.values (c.records.insert r.key r)).countP _
      rw [counts, h.counted.history, countP_stored stored, same]

/-- What the archive holds outlasts a proper turn. -/
theorem archive_turn {c c' : Coordinator} (h : Balanced c) {t : StoreTurn}
    (proper : c.versions.Proper t) (same : c'.versions = c.versions.turn t)
    (retired : c'.retired = c.retired) : ∀ (id : ReservationId) (r : ReservationRecord),
      c'.retired[id]? = some r →
        isTerminal r.state = true ∧ c'.versions.Shelved r.id r.generation := by
  intro id r there
  rw [retired] at there
  obtain ⟨terminal, shelved⟩ := h.archive id r there
  rw [same]
  exact ⟨terminal, shelved.turn proper⟩

/-- A registration puts its record. -/
theorem turns_register (c : Coordinator) (r : ReservationRecord) :
    Turns [.put r.id r.generation (isTerminal r.state)] c (c.registerRecord r) := by
  intro keyed
  have same := versions_registerRecord c r
  refine ⟨insert_keyed keyed rfl, same, fun ⟨proper, _⟩ balanced => ?_⟩
  exact ⟨counted_registerRecord balanced proper, same ▸ balanced.tidy.turn _,
    archive_turn balanced proper same rfl⟩

theorem uncounted_syncQueues (c : Coordinator) (r : ReservationRecord) :
    Uncounted c (c.syncQueues r) := by
  obtain ⟨a, e, q, shape⟩ := syncQueues_shape c r
  rw [shape]
  exact ⟨rfl, rfl, rfl, rfl, rfl⟩

theorem turns_recall (c : Coordinator) (r : ReservationRecord) :
    Turns [.put r.id r.generation (isTerminal r.state)] c (c.recallRecord r) :=
  (turns_register c r).uncounted (uncounted_syncQueues _ r)

/-- The counters follow a record that changes its state. -/
theorem counted_moved {c : Coordinator} (h : c.Counted) {r next : ReservationRecord}
    (stored : c.records[next.key]? = some r) :
    ((c.countState r.state next.state).putRecord next).Counted := by
  have live := h.live
  have history := h.history
  rw [countP_stored stored] at live history
  refine ⟨?_, ?_⟩
  · change (c.countState r.state next.state).liveCount =
      (Map.values ((c.countState r.state next.state).records.insert next.key next)).countP _
    rw [countP_insert]
    unfold countState
    cases old : isTerminal r.state <;> cases new : isTerminal next.state <;>
      simp [old] at live ⊢ <;> omega
  · change (c.countState r.state next.state).historyCount =
      (Map.values ((c.countState r.state next.state).records.insert next.key next)).countP _
    rw [countP_insert]
    unfold countState
    cases old : isTerminal r.state <;> cases new : isTerminal next.state <;>
      simp [old] at history ⊢ <;> omega

theorem versions_stored {c c' : Coordinator} {r next : ReservationRecord}
    (stored : c.records[next.key]? = some r) (records : c'.records = c.records.insert next.key next)
    (currentGeneration : c'.currentGeneration = c.currentGeneration) :
    c'.versions = c.versions.turn (.move next.id next.generation (isTerminal next.state)) := by
  refine Versions.ext ?_ ?_
  · funext id generation
    change (c'.records[(⟨id, generation⟩ : ReservationKey)]?.map fun r => isTerminal r.state) = _
    rw [records, standing_insert]
    simp only [Versions.turn, Versions.standing_stand]
    rw [show c.versions.standing next.id next.generation = _ from standing_stored stored]
    rfl
  · funext id
    change c'.currentGeneration[id]? = c.currentGeneration[id]?
    rw [currentGeneration]

/-- A stored record that changes its state moves. -/
theorem turns_move {c : Coordinator} {key : ReservationKey} {r next : ReservationRecord}
    (stored : c.records[key]? = some r) (named : next.key = r.key) :
    Turns [.move key.id key.generation (isTerminal next.state)] c (c.moveRecord r next) := by
  intro keyed
  have there := keyed key r stored
  obtain rfl : next.key = key := named.trans there
  have same : (c.moveRecord r next).versions =
      c.versions.turn (.move next.id next.generation (isTerminal next.state)) :=
    versions_stored stored (moveRecord_records c r next) (by
      obtain ⟨a, e, q, l, n, shape⟩ := moveRecord_shape c r next
      rw [shape])
  refine ⟨keyed_moveRecord keyed r next, same, fun ⟨proper, _⟩ balanced => ⟨?_, ?_, ?_⟩⟩
  · have counted := counted_moved balanced.counted stored
    have queued := uncounted_syncQueues ((c.countState r.state next.state).putRecord next) next
    refine ⟨?_, ?_⟩
    · exact queued.liveCount.trans (counted.live.trans (congrArg (fun m => Map.values m |>.countP _)
        queued.records.symm))
    · exact queued.historyCount.trans (counted.history.trans (congrArg (fun m => Map.values m |>.countP _)
        queued.records.symm))
  · exact same ▸ balanced.tidy.turn _
  · refine archive_turn balanced proper same ?_
    obtain ⟨a, e, q, l, n, shape⟩ := moveRecord_shape c r next
    rw [shape]

/-- A stored generation that stands as before has made no turn. -/
theorem Turns.still {c c' : Coordinator} {id : ReservationId} {generation : ReservationGeneration}
    {ended : Bool} (h : Turns [.move id generation ended] c c')
    (stands : c.versions.standing id generation = some ended) : Turns [] c c' := by
  have same := Versions.turn_move_still stands
  intro keyed
  obtain ⟨keyed', versions, balances⟩ := h keyed
  refine ⟨keyed', versions.trans same, fun _ balanced => balances ⟨?_, trivial⟩ balanced⟩
  cases ended with
  | true => trivial
  | false => simp [Versions.Proper, stands]

/-- One turn twice. -/
theorem Turns.again {c c' : Coordinator} {id : ReservationId} {generation : ReservationGeneration}
    {ended : Bool} (h : Turns [.move id generation ended, .move id generation ended] c c') :
    Turns [.move id generation ended] c c' := by
  intro keyed
  obtain ⟨keyed', versions, balances⟩ := h keyed
  have twice := Versions.turn_move_again c.versions id generation ended
  refine ⟨keyed', versions.trans twice, fun ⟨proper, _⟩ balanced => ?_⟩
  refine balances ⟨proper, ?_, trivial⟩ balanced
  exact Versions.proper_move_again id generation ended

/-- What is put back in the same state leaves the counters alone. -/
theorem turns_put {c : Coordinator} {key : ReservationKey} {r next : ReservationRecord}
    (stored : c.records[key]? = some r) (named : next.key = r.key) (same : next.state = r.state) :
    Turns [] c (c.putRecord next) := by
  intro keyed
  have there := keyed key r stored
  obtain rfl : next.key = key := named.trans there
  have versions : (c.putRecord next).versions = c.versions := by
    have moved : (c.putRecord next).versions =
        c.versions.turn (.move next.id next.generation (isTerminal next.state)) :=
      versions_stored stored rfl rfl
    refine moved.trans (Versions.turn_move_still ?_)
    rw [same]
    exact standing_stored stored
  refine ⟨insert_keyed keyed rfl, versions, fun _ balanced => ⟨⟨?_, ?_⟩, ?_, ?_⟩⟩
  · refine balanced.counted.live.trans ?_
    change _ = (Map.values (c.records.insert next.key next)).countP _
    rw [countP_insert, countP_stored stored, same]
  · refine balanced.counted.history.trans ?_
    change _ = (Map.values (c.records.insert next.key next)).countP _
    rw [countP_insert, countP_stored stored, same]
  · rw [versions]
    exact balanced.tidy
  · rw [versions]
    exact balanced.archive

/-! ## The archive -/

/-- A generation leaves for the archive, in whatever form. -/
theorem turns_retire {c : Coordinator} {key : ReservationKey} {r filed : ReservationRecord}
    (stored : c.records[key]? = some r) (named : filed.key = r.key)
    (ended : isTerminal r.state = true → isTerminal filed.state = true) :
    Turns [.drop key.id key.generation] c { c with
      retired := c.retired.insert key.id filed
      records := c.records.erase key
      historyCount := c.historyCount - 1 } := by
  intro keyed
  obtain rfl := keyed key r stored
  have stands := standing_stored stored
  generalize left : ({ c with
    retired := c.retired.insert r.key.id filed
    records := c.records.erase r.key
    historyCount := c.historyCount - 1 } : Coordinator) = c'
  have records : c'.records = c.records.erase r.key := by rw [← left]
  have retired : c'.retired = c.retired.insert r.key.id filed := by rw [← left]
  have same : c'.versions = c.versions.turn (.drop r.key.id r.key.generation) := by
    refine Versions.ext ?_ (by rw [← left]; rfl)
    funext id generation
    change (c'.records[(⟨id, generation⟩ : ReservationKey)]?.map fun r => isTerminal r.state) =
      if id = r.key.id ∧ generation = r.key.generation then none
        else c.versions.standing id generation
    rw [records, Map.get_erase]
    by_cases here : id = r.key.id ∧ generation = r.key.generation
    · obtain ⟨rfl, rfl⟩ := here
      rw [if_pos (show (⟨r.key.id, r.key.generation⟩ : ReservationKey) = r.key from rfl),
        if_pos ⟨rfl, rfl⟩]
      rfl
    · rw [if_neg here, if_neg fun eq => here ⟨congrArg ReservationKey.id eq,
        congrArg ReservationKey.generation eq⟩]
      rfl
  refine ⟨fun k s there => ?_, same, fun ⟨proper, _⟩ balanced => ?_⟩
  · rw [records, Map.get_erase] at there
    split at there
    · cases there
    · exact keyed k s there
  · -- What leaves has ended, so only the history is counted down.
    have terminal : isTerminal r.state = true := by
      cases dead : isTerminal r.state with
      | true => rfl
      | false =>
        rw [dead] at stands
        exact absurd stands proper
    have known : c.versions.Known r.key.id r.key.generation :=
      balanced.tidy _ _ (by rw [stands]; simp)
    refine ⟨⟨?_, ?_⟩, same ▸ balanced.tidy.turn _, fun id s there => ?_⟩
    · have live := balanced.counted.live
      rw [countP_stored stored, terminal] at live
      rw [records, ← left]
      exact live
    · have history := balanced.counted.history
      rw [countP_stored stored, terminal] at history
      rw [records, ← left]
      exact congrArg (· - 1) history
    · rw [retired, Map.get_insert] at there
      rw [same]
      split at there
      · obtain rfl := Option.some.inj there
        refine ⟨ended terminal, ?_⟩
        change (c.versions.turn _).Shelved filed.key.id filed.key.generation
        rw [named]
        exact ⟨known, by simp [Versions.turn]⟩
      · obtain ⟨dead, shelved⟩ := balanced.archive id s there
        exact ⟨dead, shelved.turn proper⟩

/-- A generation that is not stored cannot leave. -/
theorem turns_retire_absent {c : Coordinator} {key : ReservationKey}
    (absent : c.records[key]? = none) : Turns [.drop key.id key.generation] c c := by
  intro keyed
  have same : c.versions.turn (.drop key.id key.generation) = c.versions := by
    refine Versions.ext ?_ rfl
    funext id generation
    change (if id = key.id ∧ generation = key.generation then none
      else c.versions.standing id generation) = _
    by_cases here : id = key.id ∧ generation = key.generation
    · obtain ⟨rfl, rfl⟩ := here
      rw [if_pos ⟨rfl, rfl⟩]
      change _ = (c.records[key]?.map _ : Option Bool)
      rw [absent]
      rfl
    · rw [if_neg here]
  exact ⟨keyed, same.symm, fun _ balanced => balanced⟩

theorem turns_replayRetire (c : Coordinator) (key : ReservationKey) :
    Turns [.drop key.id key.generation] c (c.replayRetire key) := by
  unfold replayRetire
  cases stored : c.records[key]? with
  | none => exact turns_retire_absent stored
  | some r => exact turns_retire stored rfl id

theorem turns_retireRecord (now : Timestamp) (c : Coordinator) (key : ReservationKey) :
    Turns [.drop key.id key.generation] c (retireRecord now c key) := by
  unfold retireRecord
  cases stored : c.records[key]? with
  | none => exact turns_retire_absent stored
  | some r => exact turns_retire stored rfl fun _ => rfl

/-- What the archive holds comes back beside the records. -/
theorem turns_recallRetired (c : Coordinator) (r : ReservationRecord) :
    Turns [.put r.id r.generation (isTerminal r.state), .shelve r.id r.generation] c
      (c.recallRetired r) := by
  intro keyed
  have entered := turns_register c r keyed
  obtain ⟨keyed', versions, balances⟩ := entered
  have same : (c.recallRetired r).versions = (c.registerRecord r).versions := rfl
  refine ⟨keyed', same.trans versions, fun ⟨proper, shelved, _⟩ balanced => ?_⟩
  have before := balances ⟨proper, trivial⟩ balanced
  refine ⟨⟨before.counted.live, before.counted.history⟩, before.tidy, fun id s there => ?_⟩
  change (c.retired.insert r.id r)[id]? = some s at there
  rw [Map.get_insert] at there
  rw [same]
  split at there
  · obtain rfl := Option.some.inj there
    rw [versions]
    refine ⟨?_, shelved⟩
    cases dead : isTerminal r.state with
    | true => rfl
    | false =>
      refine absurd ?_ shelved.2
      simp [Versions.turn, dead]
  · exact before.archive id s there

/-! ## Replay -/

/-- What a step of replay does to the generations. -/
def Footprint.turns : Footprint → List StoreTurn
  | .moved key state => [.move key.id key.generation (isTerminal state)]
  | .recall (.record r) => [.put r.id r.generation (isTerminal r.state)]
  | .recall (.archived r) =>
    [.put r.id r.generation (isTerminal r.state), .shelve r.id r.generation]
  | .recall (.attempt _) => []
  | .recall (.retire key) => [.drop key.id key.generation]

/-- The steps of replay as turns of the generations. -/
def Turning (fs : List Footprint) (c c' : Coordinator) : Prop := Turns (fs.flatMap Footprint.turns) c c'

instance playbackTurns : Playback Turning where
  refl c := Op.Graded.refl (R := Turns) c
  trans first later := by
    unfold Turning
    rw [List.flatMap_append]
    exact Op.Graded.trans first later
  moved _ stored named _ _ := turns_move stored named
  put stored named _ _ same := turns_put stored named same
  elsewhere same := same.uncounted.turns
  recollect c t := by
    cases t with
    | record r => exact turns_recall c r
    | archived r => exact turns_recallRetired c r
    | attempt a => exact Uncounted.turns ⟨rfl, rfl, rfl, rfl, rfl⟩
    | retire key => exact turns_replayRetire c key

end Coordinator

/-- What replay of a directory does to the generations. -/
def Contents.turns (x : Contents) : List Coordinator.StoreTurn := x.footprints.flatMap Coordinator.Footprint.turns

/-- The generations that a directory holds. -/
def Contents.versions (x : Contents) : Versions ReservationId ReservationGeneration :=
  after Versions.turn Versions.empty x.turns

namespace Coordinator

/-- **Recovery** finds the generations of the directory, and counts them if it makes proper turns. -/
theorem turns_recover {config : Config} {disk : Disk} {faults : List Bool} {c : Coordinator}
    {x : Contents} (w : Written disk x) (sound : SoundContents x)
    (h : recover config disk faults = .ok c) : c.versions = x.versions ∧
      (Along Versions.turn Versions.Proper Versions.empty x.turns → Balanced c) := by
  obtain ⟨store, c₁, -, -, played, indexed⟩ := playback_recover (R := Turning) w sound h
  have blank : ({ config, store } : Coordinator).versions = Versions.empty := by
    refine Versions.ext ?_ ?_
    · funext id generation
      simp [versions, Versions.empty]
    · funext id
      simp [versions, Versions.empty]
  have start : Balanced { config, store } := by
    refine ⟨⟨?_, ?_⟩, ?_, fun id r there => ?_⟩
    · exact (congrArg (List.countP _) Map.values_empty).symm
    · exact (congrArg (List.countP _) Map.values_empty).symm
    · rw [blank]
      exact Versions.tidy_empty
    · exact absurd there (by simp)
  have keyed : Keyed { config, store } := fun k r there => absurd there (by simp)
  obtain ⟨y, rfl⟩ := (ensures_rebuildIndex_shape c₁.rebuildQueues).of_run indexed
  obtain ⟨a, e, q, queued⟩ := rebuildQueues_shape c₁
  have same : Uncounted c₁ (c₁.rebuildQueues.withIndex y) := by
    rw [queued]
    exact ⟨rfl, rfl, rfl, rfl, rfl⟩
  obtain ⟨-, versions, balances⟩ := Turns.uncounted played same keyed
  rw [blank] at versions balances
  exact ⟨versions, fun along => balances along start⟩

end Coordinator

end Brf
