import Brf.Descent

/-!
# The states a record is in

Of the states that are defined, stored records are only ever in those that consume capacity and in
those that have ended.

* `ReservationState.assigned`: the state is one of these.
* `Footprint.Assigns`: a step of replay leaves its record in one of these.
* `AllAssigned c`: every record, archived ones included, is in one of these.

Results: `assigned_takes`, `assigns_leaves`, `assigned_recover` and `reachable_assigned`.
-/

namespace Brf

open Brf.Lib

/-- A state that records are put in. -/
def ReservationState.assigned (s : ReservationState) : Bool := consumesCapacity s || isTerminal s

namespace Coordinator

theorem assigned_committedState (now : Timestamp) (window : Interval) :
    (committedState now window).assigned = true := by
  unfold committedState
  split <;> rfl

/-- A step of replay that leaves its record in such a state. -/
def Footprint.Assigns : Footprint → Prop
  | .moved _ state => state.assigned = true
  | .recall (.record r) | .recall (.archived r) => r.state.assigned = true
  | _ => True

/-- Every record is in such a state. -/
abbrev AllAssigned (c : Coordinator) : Prop := All (fun r => r.state.assigned = true) c

variable {c c' : Coordinator} {m : Move}

/-! ## Live -/

/-- What a commit registers. -/
theorem assigned_registered (idle : Idle c) (takes : m.Takes c c') :
    ∀ r, .record r ∈ m.recollections c → r.state.assigned = true := by
  intro r registered
  rcases record_recollections registered with ⟨p, victims, rfl, mem⟩ |
    ⟨p, superseded, successors, mutation, rfl, mem⟩ | ⟨r', binding, now, context, rfl, rfl⟩
  · obtain ⟨admitted, -⟩ := takes
    rw [createMutation_records c victims (expandSeries_length admitted.intervals).2] at mem
    unfold createRecords at mem
    split at mem
    · obtain ⟨i, -, rfl⟩ := List.mem_mapIdx.mp mem
      exact assigned_committedState _ _
    · obtain rfl := List.mem_singleton.mp mem
      exact assigned_committedState _ _
  · obtain ⟨made, -⟩ := takes_amend idle takes
    rcases (amendMutation_successors made).2 with ⟨-, rfl⟩ | ⟨-, rfl⟩
    · obtain ⟨i, -, rfl⟩ := List.mem_mapIdx.mp mem
      unfold amendedMember
      split
      · exact assigned_committedState _ _
      · exact assigned_committedState _ _
    · obtain rfl := List.mem_singleton.mp mem
      exact assigned_committedState _ _
  · exact assigned_committedState _ _

/-- One turn of a move. -/
theorem assigned_rewrites (takes : m.Takes c c') {r r' : ReservationRecord}
    (turn : m.Rewrites c r r') (h : r.state.assigned = true) : r'.state.assigned = true := by
  cases turn with
  | transition _ target now reason context retained sequence =>
    obtain ⟨-, -, legal, -⟩ := takes
    rw [transitioned_state]
    rcases legal with ⟨-, rfl⟩ | rfl | rfl | rfl <;> rfl
  | pendRecall => rfl
  | mark => exact h
  | preempt p victims mem named =>
    obtain ⟨v, -, made⟩ := List.mem_filterMap.mp mem
    unfold preemptionCompanion at made
    obtain ⟨s, -, rfl⟩ := Option.map_eq_some_iff.mp made
    rfl
  | supersede => rfl
  | revalidate => rfl

theorem assigned_becomes (takes : m.Takes c c') {r r' : ReservationRecord}
    (turns : m.Becomes c r r') (h : r.state.assigned = true) : r'.state.assigned = true := by
  induction turns with
  | refl => exact h
  | tail _ turn ih => exact assigned_rewrites takes turn ih

/-- What is archived is in the state of the archive. -/
theorem assigned_retireRecord (now : Timestamp) : ∀ (keys : List ReservationKey) {c : Coordinator},
    AllAssigned c → AllAssigned (keys.foldl (retireRecord now) c)
  | [], _, h => h
  | key :: keys, c, h => by
    refine assigned_retireRecord now keys ⟨fun k r there => h.stored k r (retireRecord_get there),
      fun id r there => ?_⟩
    unfold retireRecord at there
    cases stored : c.records[key]? with
    | none =>
      rw [stored] at there
      exact h.archived id r there
    | some s =>
      rw [stored] at there
      dsimp only at there
      rw [Map.get_insert] at there
      split at there
      · rw [← Option.some.inj there]
        rfl
      · exact h.archived id r there

/-- **A move** leaves every record in such a state. -/
theorem assigned_takes (idle : Idle c) (takes : m.Takes c c') (h : AllAssigned c) :
    AllAssigned c' := by
  refine ⟨fun k r' there => ?_, ?_⟩
  · rcases becomes_takes idle takes there with ⟨registered, -⟩ | ⟨r, before, becomes⟩
    · exact assigned_registered idle takes r' registered
    · exact assigned_becomes takes becomes (h.stored k r before)
  · rcases retired_takes idle takes with same | ⟨now, rfl⟩
    · rw [same]
      exact h.archived
    · obtain ⟨-, c₁, appended, rfl⟩ := takes
      have before : AllAssigned c₁ := h.same appended.records appended.tables.retired
      exact (assigned_retireRecord now c.retireBatch before).archived

/-! ## Written -/

/-- The footprints of a commit, an amendment or a series. -/
theorem assigns_reservation {mutation : ReservationMutation}
    (registered : ∀ r ∈ mutation.record :: mutation.members, r.state.assigned = true)
    (companions : ∀ k ∈ mutation.companions, k.toState.assigned = true) :
    ∀ f ∈ reservationFootprints mutation, f.Assigns := by
  intro f mem
  unfold reservationFootprints at mem
  rcases List.mem_append.mp mem with mem | mem
  · split at mem
    · obtain rfl := List.mem_singleton.mp mem
      exact (rfl : ReservationState.superseded.assigned = true)
    · cases mem
  rcases List.mem_append.mp mem with mem | mem
  · obtain ⟨r, there, rfl⟩ := List.mem_map.mp mem
    exact registered r there
  rcases List.mem_append.mp mem with mem | mem
  · obtain ⟨k, there, rfl⟩ := List.mem_map.mp mem
    exact companions k there
  · obtain ⟨a, -, rfl⟩ := List.mem_map.mp mem
    trivial

/-- The companions of an amendment are superseded. -/
theorem amendMutation_companions {p : AmendPlan} {superseded successors : List ReservationRecord}
    {mutation : ReservationMutation}
    (made : c.amendMutation p superseded = .ok (mutation, successors)) :
    ∀ k ∈ mutation.companions, k.toState = .superseded := by
  unfold amendMutation at made
  split at made
  · unfold amendSeriesMutation at made
    split at made
    · cases made
    · split at made
      · cases made
      · dsimp only at made
        split at made
        · cases made
        · obtain ⟨rfl, rfl⟩ := Prod.mk.inj (Except.ok.inj made)
          intro k mem
          obtain ⟨r, -, rfl⟩ := List.mem_map.mp mem
          rfl
  · obtain ⟨rfl, rfl⟩ := Prod.mk.inj (Except.ok.inj made)
    intro k mem
    cases mem

/-- **What a move logs** leaves its records in such states when it is replayed. -/
theorem assigns_logs (idle : Idle c) (takes : m.Takes c c') :
    ∀ d ∈ m.logs c, ∀ f ∈ footprints d, f.Assigns := by
  have registered := assigned_registered idle takes
  intro d mem
  cases m with
  | transition r target now reason context retained =>
    obtain rfl := List.mem_singleton.mp mem
    obtain ⟨-, -, legal, -⟩ := takes
    intro f mem
    rcases List.mem_cons.mp mem with rfl | mem
    · rcases legal with ⟨-, rfl⟩ | rfl | rfl | rfl <;> rfl
    · obtain ⟨a, -, rfl⟩ := List.mem_map.mp mem
      trivial
  | pendRecall r now reason context effect grace =>
    obtain rfl := List.mem_singleton.mp mem
    intro f mem
    rcases List.mem_cons.mp mem with rfl | mem
    · rfl
    · obtain ⟨a, -, rfl⟩ := List.mem_map.mp mem
      trivial
  | create p victims =>
    obtain rfl := List.mem_singleton.mp mem
    refine assigns_reservation (fun r there => registered r ?_) fun k there => ?_
    · exact List.mem_append_left _ (List.mem_map_of_mem there)
    · obtain ⟨v, -, made⟩ := List.mem_filterMap.mp there
      unfold preemptionCompanion at made
      obtain ⟨s, -, rfl⟩ := Option.map_eq_some_iff.mp made
      rfl
  | amend p superseded successors mutation =>
    obtain rfl := List.mem_singleton.mp mem
    obtain ⟨made, -⟩ := takes_amend idle takes
    refine assigns_reservation (fun r there => registered r ?_) fun k there => ?_
    · exact List.mem_append_left _
        (List.mem_map_of_mem ((amendMutation_successors made).1.mem_iff.mp there))
    · rw [amendMutation_companions made k there]
      rfl
  | revalidate r binding now context =>
    obtain rfl := List.mem_singleton.mp mem
    refine assigns_reservation (fun r there => registered r ?_) fun k there => ?_
    · obtain rfl := List.mem_singleton.mp there
      exact List.mem_singleton.mpr rfl
    · cases there
  | refusal attempt =>
    obtain rfl := List.mem_singleton.mp mem
    intro f mem
    obtain rfl := List.mem_singleton.mp mem
    trivial
  | retire now =>
    obtain rfl := List.mem_singleton.mp mem
    intro f mem
    obtain ⟨key, -, rfl⟩ := List.mem_map.mp mem
    trivial
  | _ =>
    first
      | exact absurd mem List.not_mem_nil
      | (obtain rfl := List.mem_singleton.mp mem
         exact fun f none => absurd none List.not_mem_nil)

/-- **What a move leaves** in the directory, and what was there. -/
theorem assigns_leaves (idle : Idle c) (takes : m.Takes c c') (h : AllAssigned c) {x : Contents}
    (there : ∀ f ∈ x.footprints, f.Assigns) : ∀ f ∈ (m.leaves c x).footprints, f.Assigns := by
  by_cases snapshot : m = .snapshot
  · subst snapshot
    intro f mem
    have mem : f ∈ snapshotFootprints c.snapshotState := by
      simpa [Move.leaves, Contents.footprints] using mem
    rcases List.mem_append.mp mem with mem | mem
    · obtain ⟨r, there, rfl⟩ := List.mem_map.mp mem
      obtain ⟨k, stored⟩ := Map.mem_values.mp there
      exact h.stored k r stored
    rcases List.mem_append.mp mem with mem | mem
    · obtain ⟨a, -, rfl⟩ := List.mem_map.mp mem
      trivial
    · obtain ⟨r, there, rfl⟩ := List.mem_map.mp mem
      obtain ⟨id, archived⟩ := Map.mem_values.mp there
      exact h.archived id r archived
  · have leaves : m.leaves c x = { x with tail := x.tail ++ m.logs c } := by
      cases m <;> first | rfl | exact absurd rfl snapshot
    intro f mem
    rw [leaves] at mem
    unfold Contents.footprints at mem there
    rw [List.flatMap_append, ← List.append_assoc] at mem
    rcases List.mem_append.mp mem with before | logged
    · exact there f before
    · obtain ⟨d, mem, logged⟩ := List.mem_flatMap.mp logged
      exact assigns_logs idle takes d mem f logged

/-! ## Read back -/

/-- Steps of replay that leave their records in such states keep all of them in such states. -/
def Assigning (fs : List Footprint) (c c' : Coordinator) : Prop :=
  (∀ f ∈ fs, f.Assigns) → AllAssigned c → AllAssigned c'

instance : Playback Assigning where
  refl _ _ h := h
  trans first second own h :=
    second (fun f mem => own f (List.mem_append_right _ mem))
      (first (fun f mem => own f (List.mem_append_left _ mem)) h)
  moved next stored named terms authority own h :=
    all_insert h (own _ List.mem_cons_self) (moveRecord_records _ _ next)
      (tables_moveRecord _ _ next).retired
  put {c key r next} stored named terms authority same own h := by
    refine all_insert h ?_ rfl rfl
    rw [same]
    exact h.stored key r stored
  elsewhere same _ h := h.same same.records same.retired
  recollect c t own h := by
    have own := own _ List.mem_cons_self
    refine all_recollect h ?_
    cases t with
    | record r => exact own
    | archived r => exact own
    | attempt a => trivial
    | retire key => trivial

/-- **Recovery** leaves every record in such a state. -/
theorem assigned_recover {config : Config} {disk : Disk} {faults : List Bool} {x : Contents}
    (w : Written disk x) (sound : SoundContents x) (h : recover config disk faults = .ok c)
    (there : ∀ f ∈ x.footprints, f.Assigns) : AllAssigned c := by
  obtain ⟨store, c₁, -, -, played, indexed⟩ := playback_recover (R := Assigning) w sound h
  have blank : AllAssigned { config, store } :=
    ⟨fun _ _ no => absurd no (by simp), fun _ _ no => absurd no (by simp)⟩
  have read := played there blank
  obtain ⟨y, rfl⟩ := (ensures_rebuildIndex_shape c₁.rebuildQueues).of_run indexed
  obtain ⟨a, e, q, queued⟩ := rebuildQueues_shape c₁
  exact read.same (by rw [queued]; rfl) (by rw [queued]; rfl)

end Coordinator

/-- **Every record** of every run consumes capacity or has ended, applicability aside. -/
theorem System.reachable_assigned {as : List Action} {c : Coordinator} (h : System.run as = .up c) :
    c.AllAssigned := by
  have keeps : System.Keeps (fun _ _ => True)
      (fun c x => c.AllAssigned ∧ ∀ f ∈ x.footprints, f.Assigns)
      (fun _ x => ∀ f ∈ x.footprints, f.Assigns) :=
    { move := fun _ _ idle _ ⟨all, written⟩ takes =>
        ⟨Coordinator.assigned_takes idle takes all, Coordinator.assigns_leaves idle takes all written⟩
      recover := fun _ w sound there h => ⟨Coordinator.assigned_recover w sound h there, there⟩
      close := fun _ ⟨_, there⟩ => there }
  have held := System.holds_always keeps
    (System.holds_initial fun _ no => absurd no List.not_mem_nil) as
  rw [show after System.step System.initial as = .up c from h] at held
  obtain ⟨-, x, -, -, all, -⟩ := held
  exact all

end Brf
