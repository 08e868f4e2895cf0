import Brf.Bounds

/-!
# What a restart restores

Nothing is kept but the directory when a process ends. What `open` rebuilds from it is compared with
what the process had in memory.

* `Footprint.told`: what a step of replay says about the state of a generation; `Contents.state` is
  the last that a directory says of one.
* `Contents.Recounts x r`: the directory registers `r`. `Accords x`: it registers a key with one
  definition only. `Descended x r`: the record is one that the directory registers, after changes of
  its state.
* `Recorded c x`: the directory says of every live generation the state that it is in.
* `Restores c d`: `d` will do in the place of `c`. What has been retired may come back as ended, so the
  history is not part of it.

Results: `recorded_leaves` and `accords_leaves` (the step lemmas), `state_recover`, and
`restart_restores`.
-/

namespace Brf

open Brf.Lib

namespace Coordinator

/-! ## What a directory says of a generation -/

/-- What a step of replay says about the state of a generation. -/
def Footprint.told : Footprint → Option (ReservationKey × ReservationState)
  | .moved key state => some (key, state)
  | .recall (.record r) | .recall (.archived r) => some (r.key, r.state)
  | .recall _ => none

/-- The states with one step of replay more. -/
def telling (f : ReservationKey → Option ReservationState) (t : Footprint) :
    ReservationKey → Option ReservationState :=
  t.told.elim f fun told => Function.update f told.1 (some told.2)

variable {f : ReservationKey → Option ReservationState} {fs : List Footprint} {key : ReservationKey}

/-- Where nothing is said, the state stays. -/
theorem after_telling_silent (silent : ∀ t ∈ fs, ∀ s, t.told ≠ some (key, s)) :
    after telling f fs key = f key := by
  induction fs generalizing f with
  | nil => rfl
  | cons t fs ih =>
    rw [after_cons, ih fun u mem => silent u (List.mem_cons_of_mem _ mem)]
    unfold telling
    cases told : t.told with
    | none => rfl
    | some told' =>
      obtain ⟨k, s⟩ := told'
      have apart : key ≠ k := fun same => silent t List.mem_cons_self s (by rw [told, same])
      exact Function.update_of_ne apart _ _

/-- Where one thing is said, that is the state. -/
theorem after_telling {state : ReservationState} (uniform : ∀ t ∈ fs, ∀ s,
      t.told = some (key, s) → s = state)
    (mem : ∃ t ∈ fs, t.told = some (key, state)) : after telling f fs key = some state := by
  induction fs generalizing f with
  | nil =>
    obtain ⟨t, no, -⟩ := mem
    cases no
  | cons t fs ih =>
    have rest : ∀ u ∈ fs, ∀ s, u.told = some (key, s) → s = state := fun u mem =>
      uniform u (List.mem_cons_of_mem _ mem)
    by_cases later : ∃ u ∈ fs, u.told = some (key, state)
    · exact ih rest later
    · obtain ⟨u, mem, told⟩ := mem
      rcases List.mem_cons.mp mem with rfl | mem
      · rw [after_cons, after_telling_silent fun v mem s said =>
          later ⟨v, mem, rest v mem s said ▸ said⟩]
        unfold telling
        rw [told]
        exact Function.update_self _ _ _
      · exact absurd ⟨u, mem, told⟩ later

/-! ## Replay -/

/-- The stored records are in the states that are said. -/
def Told (f : ReservationKey → Option ReservationState) (c : Coordinator) : Prop :=
  ∀ (k : ReservationKey) (r : ReservationRecord), c.records[k]? = some r → f k = some r.state

/-- The steps of replay as what they say. -/
def Tells (fs : List Footprint) (c c' : Coordinator) : Prop :=
  Keyed c → Keyed c' ∧ ∀ f, Told f c → Told (after telling f fs) c'

variable {c c' : Coordinator} {m : Move}

theorem tells_insert {t : Footprint} {next : ReservationRecord}
    (said : t.told = some (next.key, next.state))
    (records : c'.records = c.records.insert next.key next) : Tells [t] c c' := by
  intro keyed
  refine ⟨fun k r there => ?_, fun f told k r there => ?_⟩
  · rw [records] at there
    exact insert_keyed keyed rfl k r there
  · rw [records, Map.get_insert] at there
    rw [after_cons, after_nil]
    unfold telling
    rw [said, Option.elim_some]
    split at there
    · rename_i same
      obtain rfl := Option.some.inj there
      rw [same]
      exact Function.update_self _ _ _
    · rename_i apart
      rw [Function.update_of_ne apart]
      exact told k r there

theorem tells_same {fs : List Footprint} (silent : ∀ t ∈ fs, t.told = none)
    (records : ∀ (k : ReservationKey) (r : ReservationRecord), c'.records[k]? = some r →
      c.records[k]? = some r) : Tells fs c c' := by
  intro keyed
  refine ⟨fun k r there => keyed k r (records k r there), fun f told k r there => ?_⟩
  rw [after_telling_silent fun t mem s no => by rw [silent t mem] at no; cases no]
  exact told k r (records k r there)

instance playbackTells : Playback Tells where
  refl c keyed := ⟨keyed, fun _ told => told⟩
  trans first later keyed := by
    obtain ⟨keyed₁, tells₁⟩ := first keyed
    obtain ⟨keyed₂, tells₂⟩ := later keyed₁
    refine ⟨keyed₂, fun f told => ?_⟩
    rw [after_append]
    exact tells₂ _ (tells₁ f told)
  moved {c key r} next stored named _ _ keyed := by
    have own : next.key = key := named.trans (keyed key r stored)
    exact tells_insert (by rw [own]; rfl) (moveRecord_records c r next) keyed
  put {c key r next} stored named _ _ same keyed := by
    have own : next.key = key := named.trans (keyed key r stored)
    refine ⟨insert_keyed keyed rfl, fun f told k s there => ?_⟩
    change (c.records.insert next.key next)[k]? = some s at there
    rw [Map.get_insert] at there
    split at there
    · rename_i here
      obtain rfl := Option.some.inj there
      rw [same, here, own]
      exact told key r stored
    · exact told k s there
  elsewhere same := tells_same (fun _ no => nomatch no) fun k r there => same.records ▸ there
  recollect c t := by
    cases t with
    | record r => exact tells_insert rfl (recallRecord_records c r)
    | archived r => exact tells_insert rfl rfl
    | attempt a =>
      have silent : ∀ t ∈ [Footprint.recall (.attempt a)], t.told = none := by
        intro t mem
        rw [List.mem_singleton.mp mem]
        rfl
      exact tells_same silent fun _ _ there => there
    | retire key =>
      have silent : ∀ t ∈ [Footprint.recall (.retire key)], t.told = none := by
        intro t mem
        rw [List.mem_singleton.mp mem]
        rfl
      refine tells_same silent fun k r there => ?_
      change (c.replayRetire key).records[k]? = some r at there
      unfold replayRetire at there
      cases stored : c.records[key]? with
      | none =>
        rw [stored] at there
        exact there
      | some s =>
        rw [stored] at there
        change (c.records.erase key)[k]? = some r at there
        rw [Map.get_erase] at there
        split at there
        · cases there
        · exact there

end Coordinator

/-- The last that a directory says of a generation. -/
def Contents.state (x : Contents) : ReservationKey → Option ReservationState :=
  after Coordinator.telling (fun _ => none) x.footprints

namespace Coordinator

variable {c c' : Coordinator} {m : Move}

/-- **Recovery** finds every record in the state that the directory says. -/
theorem state_recover {config : Config} {disk : Disk} {faults : List Bool} {x : Contents}
    (w : Written disk x) (sound : SoundContents x) (h : recover config disk faults = .ok c) :
    Told x.state c := by
  obtain ⟨store, c₁, -, -, played, indexed⟩ := playback_recover (R := Tells) w sound h
  have keyed : Keyed { config, store } := fun k r there => absurd there (by simp)
  obtain ⟨-, tells⟩ := played keyed
  have told := tells (fun _ => none) fun k r there => absurd there (by simp)
  obtain ⟨y, rfl⟩ := (ensures_rebuildIndex_shape c₁.rebuildQueues).of_run indexed
  obtain ⟨a, e, q, queued⟩ := rebuildQueues_shape c₁
  intro k r there
  rw [queued] at there
  exact told k r there

/-! ## What the records of a move say -/

/-- The moves that register. -/
def Move.Enters : Move → Prop
  | .create .. | .amend .. | .revalidate .. => True
  | _ => False

/-- **The turns of a commit**, in memory and in the journal. -/
theorem commits_takes (idle : Idle c) (takes : m.Takes c c') (continues : c.Continues m)
    {x : Contents} (h : Registered c x) (commits : m.Enters) :
    c.versions.Committing (m.turns c) ∧ ∀ t, t ∈ m.replays c ↔ t ∈ m.turns c := by
  cases m with
  | create p victims => exact ⟨committing_create idle takes, replays_create⟩
  | amend p superseded successors mutation =>
    exact ⟨committing_amend idle takes continues, replays_amend idle takes⟩
  | revalidate r binding now context =>
    exact ⟨(committing_revalidate h.shadow takes continues).1, fun _ => replays_revalidate⟩
  | _ => exact commits.elim

theorem commits_newRecords {r : ReservationRecord} (mem : r ∈ m.newRecords c) : m.Enters := by
  cases m <;> trivial

theorem newRecords_recollections {r : ReservationRecord}
    (registered : .record r ∈ m.recollections c) : r ∈ m.newRecords c := by
  rcases record_recollections registered with ⟨p, victims, rfl, mem⟩ |
    ⟨p, superseded, successors, mutation, rfl, mem⟩ | ⟨s, binding, now, context, rfl, rfl⟩
  · exact mem
  · exact mem
  · exact List.mem_singleton_self _

/-- What a move registers, its journal record holds. -/
theorem logged_newRecords (idle : Idle c) (takes : m.Takes c c') {r : ReservationRecord}
    (mem : r ∈ m.newRecords c) : .recall (.record r) ∈ (m.logs c).flatMap footprints := by
  have listed : ∀ {mutation : ReservationMutation}, r ∈ mutation.record :: mutation.members →
      .recall (.record r) ∈ reservationFootprints mutation := fun there =>
    List.mem_append_right _ (List.mem_append_left _ (List.mem_map_of_mem there))
  cases m with
  | create p victims => exact List.mem_flatMap.mpr ⟨_, List.mem_singleton_self _, listed mem⟩
  | amend p superseded successors mutation =>
    obtain ⟨made, -⟩ := takes_amend idle takes
    exact List.mem_flatMap.mpr ⟨_, List.mem_singleton_self _,
      listed ((amendMutation_successors made).1.mem_iff.mpr mem)⟩
  | revalidate s binding now context =>
    obtain rfl := List.mem_singleton.mp mem
    exact List.mem_flatMap.mpr ⟨_, List.mem_singleton_self _, listed List.mem_cons_self⟩
  | _ => cases mem

/-- What the records of a move say is of what it registers, or a turn of a generation. -/
theorem told_logs (idle : Idle c) (takes : m.Takes c c') {t : Footprint}
    (mem : t ∈ (m.logs c).flatMap footprints) {key : ReservationKey} {state : ReservationState}
    (told : t.told = some (key, state)) :
    (∃ r ∈ m.newRecords c, r.key = key ∧ r.state = state) ∨
      .move key.id key.generation (isTerminal state) ∈ m.replays c := by
  obtain ⟨d, logged, there⟩ := List.mem_flatMap.mp mem
  have recalled : ∀ {u : Recollection}, t = .recall u → u ∈ recollections d := by
    rintro u rfl
    rw [← recollections_footprints]
    exact List.mem_flatMap.mpr ⟨_, there, List.mem_singleton_self u⟩
  cases t with
  | moved k s =>
    cases told
    exact .inr (List.mem_flatMap.mpr ⟨_, mem, List.mem_singleton_self _⟩)
  | «recall» u =>
    rcases mem_recollections (recalled rfl) with ⟨r, registered, rfl⟩ | ⟨a, rfl⟩ | ⟨k, rfl⟩
    · cases told
      exact .inl ⟨r, newRecords_recollections (registers_logs idle takes logged registered), rfl, rfl⟩
    · cases told
    · cases told

/-- The records of a commit say one thing of what it registers. -/
theorem told_registered (idle : Idle c) (takes : m.Takes c c') (continues : c.Continues m)
    {x : Contents} (h : Registered c x) {r : ReservationRecord} (new : r ∈ m.newRecords c)
    {t : Footprint} (mem : t ∈ (m.logs c).flatMap footprints) {state : ReservationState}
    (told : t.told = some (r.key, state)) : state = r.state := by
  have fresh := fresh_registered idle takes continues h (mem_newRecords new)
  rcases told_logs idle takes mem told with ⟨s, there, same, rfl⟩ | moved
  · have once := (registersNew_takes idle takes continues h).once
    rw [List.inj_on_of_nodup_map once there new (congrArg ReservationKey.id same)]
  · obtain ⟨commits, replays⟩ := commits_takes idle takes continues h (commits_newRecords new)
    rcases commits.turns _ ((replays _).mp moved) with ⟨i, g, same, stored⟩ | ⟨i, g, no, -⟩
    · obtain ⟨rfl, rfl, -⟩ := (Turn.move.injEq _ _ _ _ _ _).mp same
      exact absurd (h.balanced.tidy _ _ stored) fresh
    · cases no

/-- The records of a commit say nothing of what stays in force. -/
theorem told_standing (idle : Idle c) (takes : m.Takes c c') (continues : c.Continues m)
    {x : Contents} (h : Registered c x) (commits : m.Enters) {key : ReservationKey}
    {r r' : ReservationRecord} (stored : c.records[key]? = some r)
    (there : c'.records[key]? = some r') (live : isTerminal r'.state = false) {t : Footprint}
    (mem : t ∈ (m.logs c).flatMap footprints) (state : ReservationState) :
    t.told ≠ some (key, state) := by
  intro told
  have known := h.balanced.tidy key.id key.generation (by rw [standing_stored stored]; simp)
  rcases told_logs idle takes mem told with ⟨s, new, rfl, -⟩ | moved
  · exact fresh_registered idle takes continues h (mem_newRecords new) known
  · obtain ⟨committing, replays⟩ := commits_takes idle takes continues h commits
    obtain ⟨-, versions, -⟩ := turns_takes idle takes idle.consistent.keyed
    have turned := (replays _).mp moved
    rcases committing.turns _ turned with ⟨i, g, same, -⟩ | ⟨i, g, no, -⟩
    · obtain ⟨rfl, rfl, ended⟩ := (Turn.move.injEq _ _ _ _ _ _).mp same
      rw [ended] at turned
      have ends := (Versions.commit_along h.balanced.tidy committing).2.ended _ _ turned
      rw [← versions, standing_stored there, live] at ends
      cases ends
    · cases no

/-- The moves that change the state of a generation in force, which stays in force. -/
def Move.Activates : Move → Prop
  | .transition .. | .pendRecall .. => True
  | _ => False

/-- Other moves leave what stays in force in its state. -/
theorem Move.Becomes.state {r r' : ReservationRecord} (h : m.Becomes c r r')
    (other : ¬ m.Activates) (live : isTerminal r'.state = false) : r'.state = r.state := by
  induction h with
  | refl => rfl
  | tail _ turn ih =>
    cases turn with
    | transition => exact absurd trivial other
    | pendRecall => exact absurd trivial other
    | mark => exact ih live
    | preempt p victims mem named =>
      obtain ⟨v, -, made⟩ := List.mem_filterMap.mp mem
      obtain ⟨s, -, rfl⟩ := Option.map_eq_some_iff.mp made
      cases live
    | supersede => cases live
    | revalidate => cases live

/-- A move that neither registers nor changes a state says nothing. -/
theorem told_silent (quiet : ¬ m.Enters) (still : ¬ m.Activates) {t : Footprint}
    (mem : t ∈ (m.logs c).flatMap footprints) : t.told = none := by
  cases m with
  | create => exact absurd trivial quiet
  | amend => exact absurd trivial quiet
  | revalidate => exact absurd trivial quiet
  | transition => exact absurd trivial still
  | pendRecall => exact absurd trivial still
  | refusal attempt =>
    obtain rfl := List.mem_singleton.mp mem
    rfl
  | retire now =>
    obtain ⟨d, logged, there⟩ := List.mem_flatMap.mp mem
    obtain rfl := List.mem_singleton.mp logged
    obtain ⟨k, -, rfl⟩ := List.mem_map.mp there
    rfl
  | _ => simp [Move.logs, footprints] at mem

/-! ## One move -/

/-- The directory says of every live generation the state that it is in. -/
def Recorded (c : Coordinator) (x : Contents) : Prop :=
  ∀ (k : ReservationKey) (r : ReservationRecord), c.records[k]? = some r →
    isTerminal r.state = false → x.state k = some r.state

theorem state_leaves (x : Contents) (other : m ≠ .snapshot) :
    (m.leaves c x).state = after telling x.state ((m.logs c).flatMap footprints) := by
  have leaves : m.leaves c x = { x with tail := x.tail ++ m.logs c } := by
    cases m <;> first | rfl | exact absurd rfl other
  rw [leaves]
  unfold Contents.state Contents.footprints
  dsimp only
  rw [List.flatMap_append, ← List.append_assoc, after_append]

/-- A change of state is said. -/
theorem state_activated (r : ReservationRecord) (target : ReservationState)
    {r' : ReservationRecord} {attempt : Option AttemptMutation} {f : ReservationKey → Option ReservationState}
    {k : ReservationKey} (turned : k = r.key ∧ r'.state = target ∨ k ≠ r.key ∧ f k = some r'.state) :
    after telling f (.moved r.key target :: attemptFootprints attempt) k = some r'.state := by
  have silent : ∀ t ∈ attemptFootprints attempt, t.told = none := by
    intro t mem
    obtain ⟨a, -, rfl⟩ := List.mem_map.mp mem
    rfl
  rw [after_cons, after_telling_silent fun t mem s no => by rw [silent t mem] at no; cases no]
  change Function.update f r.key (some target) k = _
  rcases turned with ⟨rfl, rfl⟩ | ⟨apart, before⟩
  · exact Function.update_self _ _ _
  · rw [Function.update_of_ne apart]
    exact before

/-- A transition of one record. -/
theorem get_insert_turned {records : Map ReservationKey ReservationRecord}
    {r next r' : ReservationRecord} {k : ReservationKey} (named : next.key = r.key)
    (there : (records.insert next.key next)[k]? = some r') :
    k = r.key ∧ r' = next ∨ k ≠ r.key ∧ records[k]? = some r' := by
  rw [Map.get_insert, named] at there
  split at there
  · rename_i same
    exact .inl ⟨same, (Option.some.inj there).symm⟩
  · rename_i apart
    exact .inr ⟨apart, there⟩

/-- A snapshot says the state of every record. -/
theorem recorded_snapshot (idle : Idle c) {x : Contents} (h : Registered c x) :
    Recorded c (Move.leaves c x .snapshot) := by
  intro k r stored live
  have named := idle.consistent.keyed k r stored
  change after telling _ (snapshotFootprints c.snapshotState ++ []) k = _
  rw [List.append_nil]
  refine after_telling (fun t mem s told => ?_) ⟨.recall (.record r), ?_, by rw [← named]; rfl⟩
  · rcases List.mem_append.mp mem with mem | mem
    · obtain ⟨w, there, rfl⟩ := List.mem_map.mp mem
      obtain ⟨k', stored'⟩ := Map.mem_values.mp there
      have named' := idle.consistent.keyed k' w stored'
      cases told
      rw [named'] at stored
      rw [Option.some.inj (stored'.symm.trans stored)]
    rcases List.mem_append.mp mem with mem | mem
    · obtain ⟨a, -, rfl⟩ := List.mem_map.mp mem
      cases told
    · -- What is archived is not in force.
      obtain ⟨w, there, rfl⟩ := List.mem_map.mp mem
      obtain ⟨id, archived⟩ := Map.mem_values.mp there
      obtain ⟨-, -, apart⟩ := h.balanced.archive id w archived
      cases told
      have stands := standing_stored stored
      rw [live] at stands
      exact absurd stands apart
  · exact List.mem_append_left _ (List.mem_map_of_mem (Map.mem_values.mpr ⟨k, stored⟩))

/-- **A move says what it does**, if it continues the generations that it finds. -/
theorem recorded_leaves (idle : Idle c) (takes : m.Takes c c') (continues : c.Continues m)
    {x : Contents} (h : Registered c x) (recorded : Recorded c x) :
    Recorded c' (m.leaves c x) := by
  by_cases snapshot : m = .snapshot
  · subst snapshot
    obtain ⟨-, faults, rfl⟩ := takes
    exact recorded_snapshot idle h
  intro k r' there live
  rw [state_leaves x snapshot]
  by_cases activates : m.Activates
  · cases m with
    | transition r target now reason context retained =>
      obtain ⟨faults, y, -, left, -⟩ := takes_transition idle takes
      have named := (transitioned_kept c r target now reason context 0
        (c.store.lastSequence + 1)).1
      have records : c'.records = ((c.logged (.reservationState (transitionMutation r target now
          reason context 0)) faults).moveRecord r (c.transitioned r target now reason context 0
            (c.store.lastSequence + 1))).records := by
        rw [left]
        cases retained <;> rfl
      rw [records, moveRecord_records] at there
      unfold Move.logs
      rw [List.flatMap_singleton]
      refine state_activated r target ?_
      rcases get_insert_turned named there with ⟨same, rfl⟩ | ⟨apart, stored⟩
      · exact .inl ⟨same, rfl⟩
      · exact .inr ⟨apart, recorded k r' stored live⟩
    | pendRecall r now reason context effect grace =>
      obtain ⟨faults, y, -, left, -⟩ := takes_recall idle takes
      have named := (transitioned_kept c r .recallPending now reason context effect
        (c.store.lastSequence + 1)).1
      rw [left] at there
      change (((c.logged _ faults).moveRecord r _).moveRecord _ _).records[k]? = some r' at there
      rw [moveRecord_records] at there
      unfold Move.logs
      rw [List.flatMap_singleton]
      refine state_activated r .recallPending ?_
      have again : ((c.transitioned r .recallPending now reason context effect
          (c.store.lastSequence + 1)).graced grace).key = r.key := named
      rcases get_insert_turned again there with ⟨same, rfl⟩ | ⟨apart, stored⟩
      · exact .inl ⟨same, rfl⟩
      · rw [moveRecord_records] at stored
        rcases get_insert_turned named stored with ⟨same, -⟩ | ⟨-, stored⟩
        · exact absurd same apart
        · exact .inr ⟨apart, recorded k r' stored live⟩
    | _ => exact activates.elim
  by_cases commits : m.Enters
  · rcases becomes_takes idle takes there with ⟨registered, rfl⟩ | ⟨r, stored, becomes⟩
    · have new := newRecords_recollections registered
      exact after_telling (fun t mem s told => told_registered idle takes continues h new mem told)
        ⟨_, logged_newRecords idle takes new, rfl⟩
    · have same := becomes.state activates live
      rw [after_telling_silent fun t mem s => told_standing idle takes continues h commits stored
        there live mem s, same]
      exact recorded k r stored (same ▸ live)
  · rcases becomes_takes idle takes there with ⟨registered, -⟩ | ⟨r, stored, becomes⟩
    · exact absurd (commits_newRecords (newRecords_recollections registered)) commits
    · have same := becomes.state activates live
      have silent : ∀ t ∈ (m.logs c).flatMap footprints, ∀ s, t.told ≠ some (k, s) := by
        intro t mem s no
        rw [told_silent commits activates mem] at no
        cases no
      rw [after_telling_silent silent, same]
      exact recorded k r stored (same ▸ live)

end Coordinator

/-! ## What a directory registers -/

/-- The directory registers the record, as a stored or as an archived one. -/
def Contents.Recounts (x : Contents) (r : ReservationRecord) : Prop :=
  .record r ∈ x.recollections ∨ .archived r ∈ x.recollections

/-- The directory registers a key with one definition. -/
def Contents.Accords (x : Contents) : Prop := ∀ r s, x.Recounts r → x.Recounts s → r.key = s.key →
  r.terms = s.terms ∧ r.authority = s.authority

namespace Coordinator

variable {c c' : Coordinator} {m : Move} {x : Contents}

/-- The record is one that the directory registers, after changes of its state. -/
def Descended (x : Contents) (r : ReservationRecord) : Prop := ∃ s, x.Recounts s ∧ Descends s r

theorem lasting_descended (x : Contents) : Lasting (Descended x) := fun turns ⟨s, there, before⟩ =>
  ⟨s, there, before.trans turns⟩

/-- Two records that descend from one directory under one key have one definition. -/
theorem Descended.agree {r s : ReservationRecord} (accords : x.Accords) (h : Descended x r)
    (h' : Descended x s) (same : r.key = s.key) :
    r.terms = s.terms ∧ r.authority = s.authority := by
  obtain ⟨a, there, descends⟩ := h
  obtain ⟨b, there', descends'⟩ := h'
  obtain ⟨terms, authority⟩ := accords a b there there'
    (descends.key.symm.trans (same.trans descends'.key))
  exact ⟨descends.terms.trans (terms.trans descends'.terms.symm),
    descends.authority.trans (authority.trans descends'.authority.symm)⟩

/-- What a directory registers is known to it. -/
theorem known_recounts {r : ReservationRecord} (there : x.Recounts r) :
    x.versions.Known r.id r.generation := by
  have put : .put r.id r.generation (isTerminal r.state) ∈ x.turns := by
    unfold Contents.Recounts at there
    rw [← recollections_contents] at there
    unfold Contents.turns
    rcases there with there | there
    · obtain ⟨t, mem, recalled⟩ := List.mem_flatMap.mp there
      refine List.mem_flatMap.mpr ⟨t, mem, ?_⟩
      cases t with
      | moved => cases recalled
      | «recall» u =>
        obtain rfl := List.mem_singleton.mp recalled
        exact List.mem_singleton_self _
    · obtain ⟨t, mem, recalled⟩ := List.mem_flatMap.mp there
      refine List.mem_flatMap.mpr ⟨t, mem, ?_⟩
      cases t with
      | moved => cases recalled
      | «recall» u =>
        obtain rfl := List.mem_singleton.mp recalled
        exact List.mem_cons_self
  exact Versions.known_after_put put

/-- What a directory registers after a move that is no snapshot. -/
theorem recounts_leaves (idle : Idle c) (takes : m.Takes c c') (other : m ≠ .snapshot)
    {r : ReservationRecord} :
    (m.leaves c x).Recounts r ↔ x.Recounts r ∨ r ∈ m.newRecords c := by
  have leaves : m.leaves c x = { x with tail := x.tail ++ m.logs c } := by
    cases m <;> first | rfl | exact absurd rfl other
  unfold Contents.Recounts
  rw [leaves, mem_recollections_append, mem_recollections_append]
  constructor
  · rintro ((before | logged) | (before | logged))
    · exact .inl (.inl before)
    · obtain ⟨d, mem, there⟩ := List.mem_flatMap.mp logged
      rcases mem_recollections there with ⟨s, registered, same⟩ | ⟨a, no⟩ | ⟨key, no⟩
      · obtain rfl := Recollection.record.inj same
        exact .inr (newRecords_recollections (registers_logs idle takes mem registered))
      · cases no
      · cases no
    · exact .inl (.inr before)
    · obtain ⟨d, mem, there⟩ := List.mem_flatMap.mp logged
      rcases mem_recollections there with ⟨s, -, no⟩ | ⟨a, no⟩ | ⟨key, no⟩ <;> cases no
  · rintro ((before | before) | new)
    · exact .inl (.inl before)
    · exact .inr (.inl before)
    · refine .inl (.inr ?_)
      obtain ⟨d, mem, there⟩ := List.mem_flatMap.mp (logged_newRecords idle takes new)
      refine List.mem_flatMap.mpr ⟨d, mem, ?_⟩
      rw [← recollections_footprints]
      exact List.mem_flatMap.mpr ⟨_, there, List.mem_singleton_self _⟩

/-- What a snapshot registers is stored or archived. -/
theorem recounts_snapshot {r : ReservationRecord} :
    (Move.leaves c x .snapshot).Recounts r ↔
      (∃ k : ReservationKey, c.records[k]? = some r) ∨
        ∃ id : ReservationId, c.retired[id]? = some r := by
  have listed : (Move.leaves c x .snapshot).recollections =
      c.records.values.map .record ++ (c.attempts.values.map .attempt ++
        c.retired.values.map .archived) := List.append_nil _
  unfold Contents.Recounts
  rw [listed]
  simp [Map.mem_values]

/-! ## One move -/

/-- What is stored and archived descends from what the directory registers. -/
structure Rebuildable (c : Coordinator) (x : Contents) : Prop extends Registered c x where
  accords : x.Accords
  sourced : All (Descended x) c
  recorded : Recorded c x

/-- **A move registers no key with a second definition**, if it continues the generations that it
finds. -/
theorem accords_leaves (idle : Idle c) (takes : m.Takes c c') (continues : c.Continues m)
    (h : Rebuildable c x) : (m.leaves c x).Accords := by
  have registered := h.toRegistered
  intro r s there there' same
  by_cases snapshot : m = .snapshot
  · subst snapshot
    have descended : ∀ {r}, (Move.leaves c x .snapshot).Recounts r → Descended x r := by
      intro r there
      rcases recounts_snapshot.mp there with ⟨k, stored⟩ | ⟨id, archived⟩
      · exact h.sourced.stored k r stored
      · exact h.sourced.archived id r archived
    exact (descended there).agree h.accords (descended there') same
  · rw [recounts_leaves idle takes snapshot] at there there'
    -- What is new has not been registered before.
    have apart : ∀ {r s}, x.Recounts r → s ∈ m.newRecords c → r.key ≠ s.key := by
      intro r s there new same
      have known := registered.shadow.known (known_recounts there)
      rw [show r.id = s.id from congrArg ReservationKey.id same,
        show r.generation = s.generation from congrArg ReservationKey.generation same] at known
      exact fresh_registered idle takes continues registered (mem_newRecords new) known
    rcases there with before | new <;> rcases there' with before' | new'
    · exact h.accords r s before before' same
    · exact absurd same (apart before new')
    · exact absurd same.symm (apart before' new)
    · have once := (registersNew_takes idle takes continues registered).once
      obtain rfl := List.inj_on_of_nodup_map once new new' (congrArg ReservationKey.id same)
      exact ⟨rfl, rfl⟩

theorem sourced_leaves (idle : Idle c) (takes : m.Takes c c') (sourced : All (Descended x) c) :
    All (Descended (m.leaves c x)) c' := by
  by_cases snapshot : m = .snapshot
  · subst snapshot
    obtain ⟨-, faults, rfl⟩ := takes
    exact ⟨fun k r stored => ⟨r, recounts_snapshot.mpr (.inl ⟨k, stored⟩), .refl r⟩,
      fun id r archived => ⟨r, recounts_snapshot.mpr (.inr ⟨id, archived⟩), .refl r⟩⟩
  · have grown : ∀ {r}, Descended x r → Descended (m.leaves c x) r := fun ⟨s, there, descends⟩ =>
      ⟨s, (recounts_leaves idle takes snapshot).mpr (.inl there), descends⟩
    refine all_takes (lasting_descended _) idle takes ⟨fun k r stored => grown
      (sourced.stored k r stored), fun id r archived => grown (sourced.archived id r archived)⟩ ?_
    intro r registered
    exact ⟨r, (recounts_leaves idle takes snapshot).mpr
      (.inr (newRecords_recollections registered)), .refl r⟩

/-- **A move leaves what can be restored**, if it continues the generations that it finds. -/
theorem rebuildable_leaves (idle : Idle c) (takes : m.Takes c c') (continues : c.Continues m)
    (h : Rebuildable c x) : Rebuildable c' (m.leaves c x) where
  toRegistered := registered_leaves idle takes continues h.toRegistered
  accords := accords_leaves idle takes continues h
  sourced := sourced_leaves idle takes h.sourced
  recorded := recorded_leaves idle takes continues h.toRegistered h.recorded

/-- **Recovery** descends from the directory, whatever it finds there. -/
theorem sourced_recover {config : Config} {disk : Disk} {faults : List Bool}
    (w : Written disk x) (sound : SoundContents x) (h : recover config disk faults = .ok c) :
    All (Descended x) c := by
  refine all_recover (lasting_descended x) w sound h fun t there => ?_
  cases t with
  | record r => exact ⟨r, .inl there, .refl r⟩
  | archived r => exact ⟨r, .inr there, .refl r⟩
  | attempt a => trivial
  | retire key => trivial

theorem rebuildable_recover {config : Config} {disk : Disk} {faults : List Bool}
    (w : Written disk x) (sound : SoundContents x) (h : recover config disk faults = .ok c)
    (registers : Registers x) (accords : x.Accords) : Rebuildable c x where
  toRegistered := registered_recover w sound h registers
  accords := accords
  sourced := sourced_recover w sound h
  recorded k r stored _ := state_recover w sound h k r stored

/-! ## Restarts -/

/-- `d` will do in the place of `c`: every live generation is there with its definition in its state,
and current; what has ended is there as ended; and nothing else is in force. -/
structure Restores (c d : Coordinator) : Prop where
  live : ∀ (k : ReservationKey) (r : ReservationRecord), c.records[k]? = some r →
    isTerminal r.state = false → ∃ s, d.records[k]? = some s ∧ Descends r s ∧ s.state = r.state ∧
      d.currentGeneration[k.id]? = some k.generation
  ended : ∀ (k : ReservationKey) (r : ReservationRecord), c.records[k]? = some r →
    isTerminal r.state = true → ∃ s, d.records[k]? = some s ∧ Descends r s ∧
      isTerminal s.state = true
  other : ∀ (k : ReservationKey) (s : ReservationRecord), d.records[k]? = some s →
    c.records[k]? = none → isTerminal s.state = true ∧
      ∃ g, c.currentGeneration[k.id]? = some g ∧ k.generation ≤ g
  counted : d.Counted
  count : d.liveCount = c.liveCount

theorem restores_recover {d : Coordinator} {config : Config} {disk : Disk} {faults : List Bool}
    (idle : Idle c) (h : Rebuildable c x) (w : Written disk x) (sound : SoundContents x)
    (recovered : recover config disk faults = .ok d) : Restores c d := by
  have registered := registered_recover w sound recovered ⟨h.proper, h.shadow.kept⟩
  have told := state_recover w sound recovered
  have sourced := sourced_recover w sound recovered
  have keyed := (idle_recover w sound recovered).consistent.keyed
  obtain ⟨versions, -⟩ := turns_recover w sound recovered
  have shadow : Versions.Shadows d.versions c.versions := versions ▸ h.shadow
  have stands : ∀ {k : ReservationKey} {r : ReservationRecord}, c.records[k]? = some r →
      ∃ s, d.records[k]? = some s ∧ isTerminal s.state = isTerminal r.state ∧ Descends r s := by
    intro k r stored
    have same := shadow.stored (i := k.id) (g := k.generation) (by
      rw [standing_stored stored]
      simp)
    rw [standing_stored stored] at same
    obtain ⟨s, there, ended⟩ := Option.map_eq_some_iff.mp same
    have key : s.key = r.key :=
      (keyed k s there).trans (idle.consistent.keyed k r stored).symm
    obtain ⟨terms, authority⟩ := (sourced.stored k s there).agree h.accords
      (h.sourced.stored k r stored) key
    exact ⟨s, there, ended, key, terms, authority⟩
  refine
    { live := fun k r stored live => ?_
      ended := fun k r stored dead => ?_
      other := fun k s there absent => ?_
      counted := registered.balanced.counted
      count := ?_ }
  · obtain ⟨s, there, -, descends⟩ := stands stored
    have said := h.recorded k r stored live
    rw [told k s there] at said
    have standing := standing_stored stored
    rw [live] at standing
    exact ⟨s, there, descends, Option.some.inj said, (shadow.live _ _ standing).2⟩
  · obtain ⟨s, there, same, descends⟩ := stands stored
    exact ⟨s, there, descends, same.trans dead⟩
  · rcases shadow.standing k.id k.generation with same | ⟨-, ended, known⟩
    · have nowhere : c.versions.standing k.id k.generation = none := by
        change (c.records[k]?.map _ : Option Bool) = none
        rw [absent]
        rfl
      rw [standing_stored there, nowhere] at same
      cases same
    · rw [standing_stored there] at ended
      exact ⟨Option.some.inj ended, known⟩
  · have keys : d.liveKeys.Perm c.liveKeys := by
      refine (List.perm_ext_iff_of_nodup (nodup_liveKeys d) (nodup_liveKeys c)).mpr fun k => ?_
      rw [mem_liveKeys_versions, mem_liveKeys_versions]
      constructor
      · intro live
        rcases shadow.standing k.id k.generation with same | ⟨-, ended, -⟩
        · exact same.symm.trans live
        · rw [live] at ended
          cases ended
      · intro live
        rw [shadow.stored (by rw [live]; simp), live]
    rw [registered.balanced.counted.liveCount_eq, h.balanced.counted.liveCount_eq, keys.length_eq]

end Coordinator

namespace System

open Coordinator (Move Rebuildable Registers Continues)

theorem maintains_rebuildable :
    Maintains Continues (fun _ _ => True) Rebuildable fun _ x => Registers x ∧ x.Accords where
  quiet idle _ held takes := Coordinator.rebuildable_leaves idle takes trivial held
  move _ own idle _ held takes := Coordinator.rebuildable_leaves idle takes own.2.2 held
  recover _ w sound there h := Coordinator.rebuildable_recover w sound h there.1 there.2
  close _ held := ⟨⟨held.proper, held.shadow.kept⟩, held.accords⟩

/-- An empty directory registers nothing. -/
theorem registers_empty : Registers {} ∧ ({} : Contents).Accords := by
  refine ⟨⟨trivial, Versions.Shadows.itself Versions.tidy_empty fun _ _ no => nomatch no⟩, ?_⟩
  rintro r s (no | no) <;> cases no

/-- The directory of a run that continues the generations it finds rebuilds its coordinator. -/
theorem holds_rebuildable {as : List Action} {c : Coordinator} (continuing : Continuing as)
    (up : run as = .up c) : Coordinator.Idle c ∧ ∃ x, Written c.store.disk x ∧
      Coordinator.SoundContents x ∧ Rebuildable c x := by
  have held := maintains_rebuildable.run registers_empty
    (Along.mono step (fun _ _ own => ⟨trivial, own⟩) continuing)
  rw [up] at held
  exact held

/-- **What a restart restores.** In a run whose commits continue the generations that they find, the
coordinator that `open` recovers from the directory, under any configuration, holds every reservation
that the one before held: those in force with the same definition in the same state, and no other
one in force. -/
theorem restart_restores {as : List Action} {c d : Coordinator} {config : Config}
    {faults : List Bool} (continuing : Continuing as) (up : run as = .up c)
    (recovered : Coordinator.recover config c.store.disk faults = .ok d) :
    Coordinator.Restores c d := by
  obtain ⟨idle, x, written, sound, rebuildable⟩ := holds_rebuildable continuing up
  exact Coordinator.restores_recover idle rebuildable written sound recovered

/-! ## A restart -/

open Sample in
theorem restart_restores_amended : ∃ d, Coordinator.recover { maxHistoryRecords := 100 }
      (run amendedOnce).coordinator.store.disk [] = .ok d ∧
    Coordinator.Restores (run amendedOnce).coordinator d := by
  have facts : (run amendedOnce).isUp = true ∧ (Coordinator.recover { maxHistoryRecords := 100 }
      (run amendedOnce).coordinator.store.disk []).toOption.isSome = true := by decide +kernel
  have continuing : Continuing amendedOnce :=
    ⟨continues_opened, continues_ingested, continues_created, continues_amended, trivial⟩
  cases recovered : Coordinator.recover { maxHistoryRecords := 100 }
      (run amendedOnce).coordinator.store.disk [] with
  | ok d => exact ⟨d, rfl, restart_restores continuing (eq_up facts.1) recovered⟩
  | error e =>
    rw [recovered] at facts
    cases facts.2

end System

end Brf
