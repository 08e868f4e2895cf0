import Brf.Registrations

/-!
# The bound on live reservations

* `Move.ends`: the generations that a commit ends. `Fits c m`: the commit `m` leaves no more live
  generations than the configuration of `c` allows. A plain create checks that itself; the members of
  a series, and what an amendment adds to one, are not counted.
* `Housed c x`: the counters are exact, the directory is a shadow of the live store, and the live
  generations are within the bound.

Results: `live_takes` (what is live after a move), `housed_leaves` (the step lemma), and
`counters_exact`.
-/

namespace Brf

open Brf.Lib

namespace Coordinator

variable {c c' : Coordinator} {m : Move}

/-- No move changes the configuration. -/
theorem config_takes (idle : Idle c) (takes : m.Takes c c') : c'.config = c.config := by
  have tables := tables_takes idle takes
  cases m <;> exact tables.config

/-- The generations that a commit ends. -/
def Move.ends : Move → List ReservationKey
  | .create _ victims => victims.map fun v => ⟨v.id, v.holderGeneration⟩
  | .amend _ superseded _ _ => superseded.map ReservationRecord.key
  | .revalidate r .. => [r.key]
  | _ => []

/-- The live generations that a commit ends. -/
def ended (c : Coordinator) (m : Move) : List ReservationKey := c.liveKeys.filter (· ∈ m.ends)

/-- The number of generations that a commit registers. -/
def Move.entrants : Move → Nat
  | .create p _ => if p.terms.recurrence.enabled then p.intervals.length else 1
  | .amend p .. => if p.predecessor.seriesMember then p.intervals.length else 1
  | .revalidate .. => 1
  | _ => 0

/-- A commit leaves no more live generations than are allowed: what it registers takes the place of
what it ends, or finds room. -/
def Fits (c : Coordinator) (m : Move) : Prop :=
  match m with
  | .create p _ => p.terms.recurrence.enabled = true →
      c.liveCount + m.entrants ≤ c.config.maxLiveReservations + (c.ended m).length
  | .amend .. => c.liveCount + m.entrants ≤ c.config.maxLiveReservations + (c.ended m).length
  | _ => True

/-! ## What is live after a move -/

theorem mem_liveKeys_versions {key : ReservationKey} :
    key ∈ c.liveKeys ↔ c.versions.standing key.id key.generation = some false := by
  rw [mem_liveKeys]
  exact Option.map_eq_some_iff.symm

/-- The live generations are counted. -/
theorem Counted.liveCount_eq (h : c.Counted) : c.liveCount = c.liveKeys.length := by
  rw [h.live]
  unfold liveKeys Map.values
  rw [List.length_map, List.countP_map, List.countP_eq_length_filter]
  rfl

/-- What a move puts is one of its records. -/
theorem put_turns {i : ReservationId} {g : ReservationGeneration} {e : Bool}
    (put : .put i g e ∈ m.turns c) : ⟨i, g⟩ ∈ (m.newRecords c).map ReservationRecord.key := by
  have entered : ∀ {rs : List ReservationRecord} {ts : List StoreTurn},
      (∀ t ∈ ts, ∀ i g e, t ≠ .put i g e) → .put i g e ∈ ts ++ rs.map entering →
        ⟨i, g⟩ ∈ rs.map ReservationRecord.key := by
    intro rs ts moves mem
    rcases List.mem_append.mp mem with mem | mem
    · exact absurd rfl (moves _ mem i g e)
    · obtain ⟨r, there, same⟩ := List.mem_map.mp mem
      cases same
      exact List.mem_map_of_mem there
  cases m with
  | create p victims =>
    refine entered (fun t mem => ?_) put
    obtain ⟨k, -, rfl⟩ := List.mem_map.mp mem
    exact fun _ _ _ no => nomatch no
  | amend p superseded successors mutation =>
    refine entered (fun t mem => ?_) put
    obtain ⟨r, -, rfl⟩ := List.mem_map.mp mem
    exact fun _ _ _ no => nomatch no
  | revalidate r binding now context =>
    have moves : ∀ t ∈ [superseding r], ∀ i g e, t ≠ .put i g e := by
      intro t mem
      obtain rfl := List.mem_singleton.mp mem
      exact fun _ _ _ no => nomatch no
    exact entered moves put
  | retire now =>
    obtain ⟨key, -, same⟩ := List.mem_map.mp put
    cases same
  | _ => simp [Move.turns] at put

/-- What a commit is said to end, it ends. -/
theorem ends_turns (idle : Idle c) (takes : m.Takes c c') {key : ReservationKey}
    (mem : key ∈ m.ends) : .move key.id key.generation true ∈ m.turns c := by
  cases m with
  | create p victims =>
    obtain ⟨-, e, -, -, found, -⟩ := takes
    obtain ⟨v, there, rfl⟩ := List.mem_map.mp mem
    obtain ⟨r, stored, -⟩ := found v there
    have named := idle.consistent.keyed _ _ stored
    obtain ⟨k, made, same⟩ : ∃ k, c.preemptionCompanion p v = some k ∧
        accompanying k = .move r.key.id r.key.generation true := by
      unfold preemptionCompanion
      rw [stored]
      exact ⟨_, rfl, rfl⟩
    rw [named] at same
    exact List.mem_append_left _ (List.mem_map.mpr
      ⟨k, List.mem_filterMap.mpr ⟨v, there, made⟩, same⟩)
  | amend p superseded successors mutation =>
    obtain ⟨r, there, rfl⟩ := List.mem_map.mp mem
    exact List.mem_append_left _ (List.mem_map_of_mem there)
  | revalidate r binding now context =>
    obtain rfl := List.mem_singleton.mp mem
    exact List.mem_cons_self
  | _ => cases mem

/-- **What is live after a move** has been registered by it, or was live and has not been ended. -/
theorem live_takes (idle : Idle c) (takes : m.Takes c c') (continues : c.Continues m)
    {x : Contents} (h : Registered c x) {key : ReservationKey} (live : key ∈ c'.liveKeys) :
    key ∈ (m.newRecords c).map ReservationRecord.key ∨ key ∈ c.liveKeys ∧ key ∉ m.ends := by
  obtain ⟨-, versions, -⟩ := turns_takes idle takes idle.consistent.keyed
  have proper : Along Versions.turn Versions.Proper c.versions (m.turns c) := by
    by_cases snapshot : m = .snapshot
    · subst snapshot
      trivial
    · exact (together_takes idle takes snapshot continues h.shadow).proper
  rw [mem_liveKeys_versions, versions] at live
  rcases Versions.live_after proper live with put | ⟨stood, unended⟩
  · exact .inl (put_turns put)
  · exact .inr ⟨mem_liveKeys_versions.mpr stood, fun mem => unended (ends_turns idle takes mem)⟩

/-- **The count of live generations** after a move. -/
theorem liveCount_takes (idle : Idle c) (takes : m.Takes c c') (continues : c.Continues m)
    {x : Contents} (h : Registered c x) :
    c'.liveCount + (c.ended m).length ≤ c.liveCount + (m.newRecords c).length := by
  have after := registered_leaves idle takes continues h
  have listed : c'.liveKeys ⊆ (m.newRecords c).map ReservationRecord.key ++
      c.liveKeys.filter fun key => !decide (key ∈ m.ends) := by
    intro key live
    rcases live_takes idle takes continues h live with new | ⟨stood, unended⟩
    · exact List.mem_append_left _ new
    · exact List.mem_append_right _ (List.mem_filter.mpr ⟨stood, by simpa using unended⟩)
  have fewer := (List.subperm_of_subset (nodup_liveKeys c') listed).length_le
  have parts := c.liveKeys.length_eq_length_filter_add fun key => decide (key ∈ m.ends)
  rw [List.length_append, List.length_map] at fewer
  rw [after.balanced.counted.liveCount_eq, h.balanced.counted.liveCount_eq]
  unfold ended
  omega

/-! ## The bound -/

/-- The counters are exact, and the live generations are within the bound. -/
structure Housed (c : Coordinator) (x : Contents) : Prop extends Registered c x where
  within : c.liveCount ≤ c.config.maxLiveReservations

/-- A plain create is planned only where there is room for it. -/
theorem ensures_admitCreate_room (now : Timestamp) (context : RequestContext)
    (terms : ReservationTerms) (requestedId : ReservationId) (holds : List HoldId)
    (c : Coordinator) :
    Op.Ensures (admitCreate now context terms requestedId false holds) c fun r d =>
      ∀ p, r = .ok (.inr p) → d.liveCount < d.config.maxLiveReservations := by
  unfold admitCreate
  apply Op.ensures_get_bind
  refine Op.ensures_lift_bind (fun _ _ => ?_) fun _ _ _ no => nomatch no
  refine Op.ensures_lift_bind (fun _ _ => ?_) fun _ _ _ no => nomatch no
  refine Op.ensures_refuseIf_bind (fun _ => ?_) fun _ _ no => nomatch no
  refine Op.ensures_bind_run fun r c₁ _ => ?_
  rcases r with e | ⟨⟩
  · exact fun _ no => nomatch no
  refine Op.ensures_bind_run fun r d _ => ?_
  rcases r with e | ⟨⟩
  · exact fun _ no => nomatch no
  apply Op.ensures_get_bind
  rcases d.policyFor terms.policy with ⟨policy, note⟩
  dsimp only
  refine Op.ensures_lift_bind (fun _ _ => ?_) fun _ _ _ no => nomatch no
  cases d.attempts[context.attempt]? with
  | some previous =>
    refine Op.ensures_refuseIf_bind (fun _ => ?_) fun _ _ no => nomatch no
    exact fun _ no => nomatch no
  | none =>
    dsimp only
    refine Op.ensures_refuseIf_bind (fun _ => ?_) fun _ _ no => nomatch no
    refine Op.ensures_refuseIf_bind (fun _ => ?_) fun _ _ no => nomatch no
    refine Op.ensures_refuseIf_bind (fun room => ?_) fun _ _ no => nomatch no
    refine Op.ensures_lift_bind (fun _ _ => ?_) fun _ _ _ no => nomatch no
    refine Op.ensures_lift_bind (fun _ _ => ?_) fun _ _ _ no => nomatch no
    exact fun _ _ => by simpa using room

theorem length_newRecords (idle : Idle c) (takes : m.Takes c c') :
    (m.newRecords c).length = m.entrants := by
  cases m with
  | create p victims =>
    obtain ⟨admitted, -⟩ := takes
    change ((c.createMutation p victims).record :: (c.createMutation p victims).members).length =
      if p.terms.recurrence.enabled then p.intervals.length else 1
    rw [createMutation_records c victims (expandSeries_length admitted.intervals).2]
    unfold createRecords
    split
    · exact List.length_mapIdx
    · rfl
  | amend p superseded successors mutation =>
    obtain ⟨made, -⟩ := takes_amend idle takes
    change successors.length = if p.predecessor.seriesMember then p.intervals.length else 1
    rcases (amendMutation_successors made).2 with ⟨member, rfl⟩ | ⟨plain, rfl⟩
    · rw [if_pos member, List.length_mapIdx]
    · rw [plain]
      rfl
  | _ => rfl

/-- **A move keeps the bound**, if what it registers continues and fits. -/
theorem housed_leaves (idle : Idle c) (takes : m.Takes c c') (continues : c.Continues m)
    (fits : c.Fits m) (room : ∀ p victims, m = .create p victims →
      p.terms.recurrence.enabled = false → c.liveCount < c.config.maxLiveReservations)
    {x : Contents} (h : Housed c x) : Housed c' (m.leaves c x) where
  toRegistered := registered_leaves idle takes continues h.toRegistered
  within := by
    have count := liveCount_takes idle takes continues h.toRegistered
    have before := h.within
    rw [length_newRecords idle takes] at count
    rw [config_takes idle takes]
    cases m with
    | create p victims =>
      cases enabled : p.terms.recurrence.enabled with
      | false =>
        have free := room p victims rfl enabled
        have one : (Move.create p victims).entrants = 1 := if_neg (by simp [enabled])
        omega
      | true =>
        have fits := fits enabled
        omega
    | amend p superseded successors mutation =>
      have fits : c.liveCount + _ ≤ _ := fits
      omega
    | revalidate r binding now context =>
      obtain ⟨-, stored, live, -⟩ := takes
      have mem : r.key ∈ c.ended (.revalidate r binding now context) :=
        List.mem_filter.mpr ⟨mem_liveKeys.mpr ⟨r, stored, live⟩, by simp [Move.ends]⟩
      have ends := List.length_pos_of_mem mem
      have one : (Move.revalidate r binding now context).entrants = 1 := rfl
      omega
    | _ =>
      simp only [Move.entrants] at count
      omega

/-- **Recovery** counts what it finds. -/
theorem housed_recover {config : Config} {disk : Disk} {faults : List Bool} {x : Contents}
    (w : Written disk x) (sound : SoundContents x) (h : recover config disk faults = .ok c)
    (registers : Registers x) (within : c.liveCount ≤ config.maxLiveReservations) : Housed c x where
  toRegistered := registered_recover w sound h registers
  within := by
    rw [(recover_holds w sound h).2]
    exact within

end Coordinator

namespace System

open Coordinator (Move Registered Registers Housed Continues Fits)

/-- A start finds no more live generations than its configuration allows. -/
def StartsWithin (s : System) (a : Action) : Prop :=
  ∀ disk config boot now c, s = .down disk → a.event = .start config boot now →
    Coordinator.recover config disk a.faults = .ok c → c.liveCount ≤ config.maxLiveReservations

/-- What a create of a request is made in has room for it. -/
theorem create_room {s : System} {a : Action} {d : Coordinator} {p : Coordinator.CreatePlan}
    {victims : List IndexEntry} (makes : a.Makes (.create p victims))
    (there : From a s d (.create p victims)) : d.liveCount < d.config.maxLiveReservations := by
  obtain ⟨event, faults⟩ := a
  cases event with
  | request request =>
    rcases makes with no | carries
    · cases no
    cases s with
    | down disk => exact there.elim
    | up c =>
      cases request with
      | create now context terms requestedId dryRun holds =>
        obtain ⟨rfl, -⟩ := carries
        have run : (Coordinator.admitCreate now context terms requestedId false holds).exec
          (c.withFaults faults) = (.ok (.inr p), d) := there
        exact (Coordinator.ensures_admitCreate_room now context terms requestedId holds _).of_run
          run p rfl
      | _ => exact carries.elim
  | start config boot now =>
    rcases makes with no | no
    · cases no
    · cases no
  | stop => exact makes.elim

theorem maintains_housed :
    Maintains (fun c m => c.Continues m ∧ c.Fits m) StartsWithin Housed fun _ x => Registers x where
  quiet idle _ held takes :=
    Coordinator.housed_leaves idle takes trivial trivial (fun _ _ no => nomatch no) held
  move _ own idle _ held takes :=
    Coordinator.housed_leaves idle takes own.2.2.1 own.2.2.2
      (fun p victims same _ => by
        subst same
        exact create_room own.1 own.2.1) held
  recover starts w sound there h :=
    Coordinator.housed_recover w sound h there (starts _ _ _ _ _ rfl rfl h)
  close _ held := ⟨held.proper, held.shadow.kept⟩

/-- **The counters are exact and bounded.** In a run whose commits continue the generations that they
find and fit within the bound of the configuration, and whose starts find no more live generations
than that, the two counters are the numbers of stored live and terminal records, and the live ones
are within the bound. -/
theorem counters_exact {as : List Action} {c : Coordinator} (lawful : Along step (fun s a =>
      StartsWithin s a ∧ Proceeds (fun c m => c.Continues m ∧ c.Fits m) s a) initial as)
    (up : run as = .up c) : c.Counted ∧ c.liveCount ≤ c.config.maxLiveReservations := by
  have start : Registers {} := ⟨trivial, Versions.Shadows.itself Versions.tidy_empty
    fun _ _ no => nomatch no⟩
  have held := maintains_housed.run start lawful
  rw [up] at held
  obtain ⟨-, x, -, -, housed⟩ := held
  exact ⟨housed.balanced.counted, housed.within⟩

/-! ## A run within the bound -/

/-- Only commits of series and amendments may exceed the bound. -/
theorem fits_other {d : Coordinator} {m : Move}
    (plain : ∀ p victims, m = .create p victims → p.terms.recurrence.enabled = false)
    (other : ∀ p superseded successors mutation, m ≠ .amend p superseded successors mutation) :
    d.Fits m := by
  cases m with
  | create p victims =>
    intro enabled
    rw [plain p victims rfl] at enabled
    cases enabled
  | amend p superseded successors mutation => exact absurd rfl (other _ _ _ _)
  | _ => trivial

theorem startsWithin_up {s : System} (up : s.isUp = true) (a : Action) : StartsWithin s a := by
  rintro disk config boot now c rfl
  cases up

namespace Sample

theorem startsWithin_opened : StartsWithin (run []) (opened 100) := by
  intro disk config boot now c started asked recovered
  obtain rfl : ({} : Disk) = disk := System.down.inj started
  cases asked
  have within : (Coordinator.recover { maxHistoryRecords := 100 } {} []).toOption.all
      (fun c => c.liveCount ≤ ({ maxHistoryRecords := 100 } : Config).maxLiveReservations) =
        true := by decide +kernel
  change Coordinator.recover { maxHistoryRecords := 100 } {} [] = .ok c at recovered
  rw [recovered] at within
  exact of_decide_eq_true within

theorem fits_opened {d : Coordinator} {m : Move} (made : (opened 100).Makes m) : d.Fits m := by
  refine fits_other ?_ ?_
  · rintro p victims rfl
    rcases made with made | made <;> cases made
  · rintro p superseded successors mutation rfl
    rcases made with made | made <;> cases made

theorem fits_ingested {d : Coordinator} {m : Move} (made : ingested.Makes m) : d.Fits m := by
  refine fits_other ?_ ?_
  · rintro p victims rfl
    rcases made with made | made <;> cases made
  · rintro p superseded successors mutation rfl
    rcases made with made | made <;> cases made

theorem fits_created {d : Coordinator} {m : Move} (made : (created 1 3 20 60 21).Makes m) :
    d.Fits m := by
  refine fits_other ?_ ?_
  · rintro p victims rfl
    rcases made with made | ⟨-, -, -, -, same, -⟩
    · cases made
    · rw [same]
      rfl
  · rintro p superseded successors mutation rfl
    rcases made with made | made <;> cases made

theorem fits_amended {d : Coordinator} {m : Move} (made : (amended 1 4 22 21 1 50).Makes m)
    (there : From (amended 1 4 22 21 1 50) (run [opened 100, ingested, created 1 3 20 60 21]) d m) :
    d.Fits m := by
  have facts : (run [opened 100, ingested, created 1 3 20 60 21]).isUp = true ∧
      (((Coordinator.admitAmend 4 (context 1 22) 21 1 (terms 50)).exec
        ((run [opened 100, ingested, created 1 3 20 60 21]).coordinator.withFaults [])).1.toOption.bind
          Sum.getRight?).all (fun p => p.predecessor.seriesMember = false) = true ∧
      ((Coordinator.admitAmend 4 (context 1 22) 21 1 (terms 50)).exec
        ((run [opened 100, ingested, created 1 3 20 60 21]).coordinator.withFaults [])).2.liveCount + 1 ≤
      ((Coordinator.admitAmend 4 (context 1 22) 21 1 (terms 50)).exec
        ((run [opened 100, ingested, created 1 3 20 60 21]).coordinator.withFaults
          [])).2.config.maxLiveReservations := by
    decide +kernel
  obtain ⟨up, single, room⟩ := facts
  rw [eq_up up] at there
  generalize (run [opened 100, ingested, created 1 3 20 60 21]).coordinator = c at there single room
  cases m with
  | amend p superseded successors mutation =>
    have admitted : (Coordinator.admitAmend 4 (context 1 22) 21 1 (terms 50)).exec
        (c.withFaults []) = (.ok (.inr p), d) := there
    rw [admitted] at single room
    have plain : p.predecessor.seriesMember = false := of_decide_eq_true single
    have one : (Move.amend p superseded successors mutation).entrants = 1 :=
      if_neg (by simp [plain])
    unfold Coordinator.Fits
    dsimp only
    rw [one]
    exact room.trans (Nat.le_add_right _ _)
  | create p victims => rcases made with made | made <;> cases made
  | _ => trivial

end Sample

open Sample in
theorem counters_exact_amended : (run amendedOnce).coordinator.Counted ∧
    (run amendedOnce).coordinator.liveCount ≤
      (run amendedOnce).coordinator.config.maxLiveReservations :=
  have up : (run amendedOnce).isUp = true ∧ (run [opened 100]).isUp = true ∧
      (run [opened 100, ingested]).isUp = true ∧
      (run [opened 100, ingested, created 1 3 20 60 21]).isUp = true := by decide +kernel
  have lawful : Along step (fun s a => StartsWithin s a ∧
      Proceeds (fun c m => c.Continues m ∧ c.Fits m) s a) initial amendedOnce :=
    ⟨⟨startsWithin_opened, continues_opened.mono fun _ _ made _ continues =>
        ⟨continues, fits_opened made⟩⟩,
      ⟨startsWithin_up up.2.1 _, continues_ingested.mono fun _ _ made _ continues =>
        ⟨continues, fits_ingested made⟩⟩,
      ⟨startsWithin_up up.2.2.1 _, continues_created.mono fun _ _ made _ continues =>
        ⟨continues, fits_created made⟩⟩,
      ⟨startsWithin_up up.2.2.2 _, continues_amended.mono fun _ _ made there continues =>
        ⟨continues, fits_amended made there⟩⟩, trivial⟩
  counters_exact lawful (eq_up up.1)

end System

end Brf
