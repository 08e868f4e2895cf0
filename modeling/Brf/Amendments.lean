import Brf.Reachable

/-!
# Amendments of a series

A series amendment reads two lists at one position: the live members it supersedes, and the members
it makes in their place. The position is that of the amended member among the first; the length of the
second is the number of windows of the new terms.

* `windowCount terms`: the number of windows the terms expand to.
* `plannedSuperseded c p`: what an admitted amendment supersedes, if its windows close.

Result: `amend_in_bounds`.
-/

namespace Brf

open Brf.Lib

/-- The number of windows that terms expand to. -/
def ReservationTerms.windowCount (terms : ReservationTerms) : Nat :=
  if terms.recurrence.enabled then terms.recurrence.count.val else 1

/-- The generation a record descends from. -/
def ReservationRecord.predecessorKey (r : ReservationRecord) : ReservationKey :=
  ⟨r.predecessor, r.predecessorGeneration⟩

namespace Coordinator

/-- The generations an admitted amendment supersedes, if its windows close without them. -/
def plannedSuperseded (c : Coordinator) (p : AmendPlan) : Option (List ReservationRecord) :=
  match c.supersededBy p with
  | .error _ => none
  | .ok superseded =>
    match (Op.each suspend superseded).exec c with
    | (.error _, _) => none
    | (.ok (), e) =>
      match e.evaluate p.terms p.binding p.policy p.intervals with
      | .error _ => none
      | .ok _ => some superseded

theorem plannedSuperseded_ok {c : Coordinator} {p : AmendPlan} {superseded : List ReservationRecord}
    (h : c.plannedSuperseded p = some superseded) : c.supersededBy p = .ok superseded := by
  unfold plannedSuperseded at h
  split at h
  · cases h
  · rename_i chosen found
    split at h
    · cases h
    · split at h
      · cases h
      · obtain rfl := Option.some.inj h
        exact found

/-- What an amendment that passes validation and assessment is about to do: its plan, the state of
the decision, and the generations it supersedes. -/
def amendDecision (c : Coordinator) (now : Timestamp) (context : RequestContext)
    (target : ReservationId) (generation : ReservationGeneration) (terms : ReservationTerms) :
    Option (AmendPlan × Coordinator × List ReservationRecord) :=
  match (admitAmend now context target generation terms).exec c with
  | (.ok (.inr p), d) => (d.plannedSuperseded p).map fun superseded => (p, d, superseded)
  | _ => none

theorem amendDecision_ok {c d : Coordinator} {now : Timestamp} {context : RequestContext}
    {target : ReservationId} {generation : ReservationGeneration} {terms : ReservationTerms}
    {p : AmendPlan} {superseded : List ReservationRecord}
    (h : c.amendDecision now context target generation terms = some (p, d, superseded)) :
    (admitAmend now context target generation terms).exec c = (.ok (.inr p), d) ∧
      d.plannedSuperseded p = some superseded := by
  unfold amendDecision at h
  split at h
  · rename_i p' d' admitted
    obtain ⟨chosen, closes, same⟩ := Option.map_eq_some_iff.mp h
    cases same
    exact ⟨admitted, closes⟩
  · cases h

/-- What an admitted amendment has found. -/
theorem admitAmend_ok {c d : Coordinator} (idle : Idle c) {now : Timestamp}
    {context : RequestContext} {target : ReservationId} {generation : ReservationGeneration}
    {terms : ReservationTerms} {p : AmendPlan}
    (admitted : (admitAmend now context target generation terms).exec c = (.ok (.inr p), d)) :
    Idle d ∧ p.predecessor.key = ⟨target, generation⟩ ∧
      p.intervals.length = terms.windowCount := by
  obtain ⟨prepared, plans⟩ := (ensures_admitAmend now context target generation terms false
    idle).of_run admitted
  obtain ⟨valid, plan, -⟩ := plans p rfl
  have dIdle := (prepared idle).1
  have named := dIdle.consistent.keyed _ _ valid.predecessor
  have count := (expandSeries_length valid.intervals).1
  rw [plan.terms_eq] at count
  exact ⟨dIdle, named.trans plan.target_eq, count⟩

/-- The member at a place descends from the live member that had it, if there was one. -/
theorem amendedMember_predecessor (c : Coordinator) (p : AmendPlan)
    (superseded : List ReservationRecord) (i : Nat) (window : Interval) :
    (c.amendedMember p superseded i window).predecessorKey =
      (superseded[i]?).elim ⟨0, 0⟩ ReservationRecord.key := by
  unfold amendedMember
  cases superseded[i]? with
  | none => rfl
  | some previous => rfl

/-- **The two lists of a series amendment** are read within their bounds exactly if the amended
member, among the live members of its series, has one of the places that the new terms have. -/
theorem amend_in_bounds {as : List Action} {c : Coordinator} (h : System.run as = .up c)
    {faults : List Bool} {now : Timestamp} {context : RequestContext} {target : ReservationId}
    {generation : ReservationGeneration} {terms : ReservationTerms} {p : AmendPlan}
    {d : Coordinator} {superseded : List ReservationRecord}
    (decided : (c.withFaults faults).amendDecision now context target generation terms =
      some (p, d, superseded))
    (member : p.predecessor.seriesMember = true) :
    (d.amendMutation p superseded ≠ .error outOfRange ↔
      ((∃ r ∈ superseded, r.id = target) →
        superseded.findIdx (fun r => r.id = target) < terms.windowCount)) ∧
    ∀ i window, (d.amendedMember p superseded i window).predecessorKey =
      (superseded[i]?).elim ⟨0, 0⟩ ReservationRecord.key := by
  refine ⟨?_, amendedMember_predecessor d p superseded⟩
  obtain ⟨admitted, closes⟩ := amendDecision_ok decided
  have idle : Idle (c.withFaults faults) :=
    System.idle_withFaults (System.reachable_idle h).1 faults
  obtain ⟨-, named, count⟩ := admitAmend_ok idle admitted
  have id : p.predecessor.id = target := congrArg ReservationKey.id named
  have chosen := plannedSuperseded_ok closes
  unfold supersededBy at chosen
  rw [if_pos member] at chosen
  unfold amendMutation amendSeriesMutation
  rw [if_pos member, id]
  cases series : d.seriesOf p.predecessor.series with
  | none =>
    rw [series] at chosen
    cases chosen
  | some s =>
    dsimp only
    cases place : superseded.findIdx? fun r => r.id = target with
    | none =>
      have absent := List.findIdx?_eq_none_iff.mp place
      refine ⟨fun _ found => ?_, fun _ same => ?_⟩
      · obtain ⟨r, mem, named⟩ := found
        exact absurd (absent r mem) (by simp [named])
      · exact absurd (congrArg Error.code (Except.error.inj same)) (by decide)
    | some i =>
      obtain ⟨inside, found, -⟩ := List.findIdx?_eq_some_iff_getElem.mp place
      have there : ∃ r ∈ superseded, r.id = target :=
        ⟨superseded[i], List.getElem_mem inside, by simpa using found⟩
      have at' : superseded.findIdx (fun r => r.id = target) = i :=
        (List.findIdx?_eq_some_iff_findIdx_eq.mp place).2
      have length : (p.intervals.mapIdx (d.amendedMember p superseded)).length =
          terms.windowCount := List.length_mapIdx.trans count
      dsimp only
      rw [at']
      cases record : (p.intervals.mapIdx (d.amendedMember p superseded))[i]? with
      | none =>
        have past := List.getElem?_eq_none_iff.mp record
        refine ⟨fun within => absurd rfl within, fun bound => ?_⟩
        exact absurd (bound there) (not_lt.mpr (length ▸ past))
      | some r =>
        have within := (List.getElem?_eq_some_iff.mp record).1
        exact ⟨fun _ _ => length ▸ within, fun _ same => nomatch same⟩

open System.Sample

/-- A series of three members, amended at its first member to a single window. -/
theorem amend_in_bounds_first :
    let c := (System.run [opened 0, ingested, createdSeries 3 10 3]).coordinator
    ∃ p d superseded, (c.withFaults []).amendDecision 4 (context 1 101) (member 0) 1
        (recurrent 10 1) = some (p, d, superseded) ∧
      (d.amendMutation p superseded ≠ .error outOfRange ↔
        ((∃ r ∈ superseded, r.id = member 0) →
          superseded.findIdx (fun r => r.id = member 0) < (recurrent 10 1).windowCount)) := by
  intro c
  have found : ((c.withFaults []).amendDecision 4 (context 1 101) (member 0) 1
      (recurrent 10 1)).any (fun q => q.1.predecessor.seriesMember) = true := by decide +kernel
  obtain ⟨⟨p, d, superseded⟩, decided, isMember⟩ := (Option.any_eq_true _ _).mp found
  have up : System.run [opened 0, ingested, createdSeries 3 10 3] = .up c :=
    System.eq_up (by decide +kernel)
  exact ⟨p, d, superseded, decided, (amend_in_bounds up decided isMember).1⟩

/-- The same series, amended at its last member: the place of that member is read past the end. -/
theorem shrinking_amendment_out_of_range :
    ¬ ∀ (as : List Action) (c : Coordinator), System.run as = .up c →
      ∀ (faults : List Bool) (now : Timestamp) (context : RequestContext) (target : ReservationId)
        (generation : ReservationGeneration) (terms : ReservationTerms) (p : AmendPlan)
        (d : Coordinator) (superseded : List ReservationRecord),
        (c.withFaults faults).amendDecision now context target generation terms =
          some (p, d, superseded) →
        p.predecessor.seriesMember = true → d.amendMutation p superseded ≠ .error outOfRange := by
  intro claimed
  let as := [opened 0, ingested, createdSeries 3 10 3]
  have found : (((System.run as).coordinator.withFaults []).amendDecision 4 (context 1 101)
      (member 2) 1 (recurrent 10 1)).any (fun q => q.1.predecessor.seriesMember &&
        (match q.2.1.amendMutation q.1 q.2.2 with
          | .ok _ => false
          | .error e => decide (e = outOfRange))) = true := by decide +kernel
  obtain ⟨⟨p, d, superseded⟩, decided, both⟩ := (Option.any_eq_true _ _).mp found
  obtain ⟨isMember, fails⟩ := Bool.and_eq_true_iff.mp both
  have safe := claimed as _ (System.eq_up (by decide +kernel)) [] 4 (context 1 101) (member 2) 1
    (recurrent 10 1) p d superseded decided isMember
  dsimp only at fails
  cases made : d.amendMutation p superseded with
  | ok _ =>
    rw [made] at fails
    cases fails
  | error e =>
    rw [made] at fails safe
    exact safe (congrArg Except.error (of_decide_eq_true fails))

end Coordinator

end Brf
