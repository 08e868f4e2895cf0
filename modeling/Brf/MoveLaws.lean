import Brf.Consistent
import Brf.References

/-!
# What the moves leave

Every move leads from an idle state to an idle state, and what it leaves can be written down without
running it: `takes_create` and its siblings give the state but for the index.

* The records that a commit registers can be indexed, because the terms have been validated and the
  binding has been resolved (`resolveBinding_bound`).
* An archived record no longer consumes, so no entry of the index is lost sight of.

Results: `idle_takes`, `takes_transition`, `takes_recall`, `takes_mark`, `takes_create`,
`takes_amend` and `takes_revalidate`.
-/

namespace Brf

open Brf.Lib

namespace Coordinator

/-! ## Bindings -/

/-- The bound resources are named, and named once. -/
def Bound (refs : List ResourceRef) : Prop :=
  (∀ ref ∈ refs, ref.resource.empty = false) ∧ refs.Pairwise fun a b => a.resource ≠ b.resource

theorem bindResources_named {c : Coordinator} (h : Consistent c) :
    ∀ {names : List ResourceName} {binding b : ResolvedBinding},
      (∀ ref ∈ binding.resources, ref.resource.empty = false) →
      c.bindResources names binding = .ok b → ∀ ref ∈ b.resources, ref.resource.empty = false
  | [], binding, b, named, ok => by
    obtain rfl := Except.ok.inj ok
    exact named
  | name :: rest, binding, b, named, ok => by
    unfold bindResources at ok
    split at ok
    · exact absurd ok (by simp [throw, throwThe, MonadExceptOf.throw])
    · rename_i entry found
      split at ok
      · exact absurd ok (by simp [throw, throwThe, MonadExceptOf.throw])
      · refine bindResources_named h ?_ ok
        intro ref mem
        rcases List.mem_append.mp mem with mem | mem
        · exact named ref mem
        · rw [List.mem_singleton.mp mem]
          exact (h.ledger name entry found).2

theorem bindComponents_named {c : Coordinator} (h : Consistent c) :
    ∀ {names : List ResourceName} {binding b : ResolvedBinding},
      (∀ ref ∈ binding.resources, ref.resource.empty = false) →
      c.bindComponents names binding = .ok b → ∀ ref ∈ b.resources, ref.resource.empty = false
  | [], binding, b, named, ok => by
    obtain rfl := Except.ok.inj ok
    exact named
  | name :: rest, binding, b, named, ok => by
    unfold bindComponents at ok
    split at ok
    · exact absurd ok (by simp [throw, throwThe, MonadExceptOf.throw])
    · rename_i entry found
      refine bindComponents_named h ?_ ok
      intro ref mem
      rcases List.mem_append.mp mem with mem | mem
      · exact named ref mem
      · rw [List.mem_singleton.mp mem]
        exact (h.ledger name entry (Option.filter_eq_some_iff.mp found).1).2

/-- A path that is bound has authority, and its components are. -/
theorem bindPath_ok {c : Coordinator} {terms : ReservationTerms} {binding b : ResolvedBinding}
    (ok : c.bindPath terms binding = .ok b) : ∃ entry, c.paths[terms.path]? = some entry ∧
      entry.retired = false ∧ c.bindComponents entry.path.components
        { binding with path := terms.path, pathGeneration := entry.path.generation } = .ok b := by
  unfold bindPath at ok
  cases found : c.paths[terms.path]? with
  | none =>
    rw [found] at ok
    exact absurd ok (by simp [throw, throwThe, MonadExceptOf.throw])
  | some entry =>
    rw [found] at ok
    dsimp only at ok
    by_cases retired : entry.retired = true
    · simp [retired, throw, throwThe, MonadExceptOf.throw, bind, Except.bind] at ok
    · rw [if_neg retired] at ok
      split at ok
      · exact absurd ok (by simp [throw, throwThe, MonadExceptOf.throw, bind, Except.bind])
      · exact ⟨entry, rfl, by simpa using retired, ok⟩

theorem bindPath_named {c : Coordinator} (h : Consistent c) {terms : ReservationTerms}
    {binding b : ResolvedBinding} (named : ∀ ref ∈ binding.resources, ref.resource.empty = false)
    (ok : c.bindPath terms binding = .ok b) : ∀ ref ∈ b.resources, ref.resource.empty = false := by
  obtain ⟨entry, -, -, components⟩ := bindPath_ok ok
  have named' : ∀ ref ∈ ({ binding with
      path := terms.path
      pathGeneration := entry.path.generation } : ResolvedBinding).resources,
      ref.resource.empty = false := named
  exact bindComponents_named h named' components

/-- A resolved binding can be indexed. -/
theorem resolveBinding_bound {c : Coordinator} (h : Consistent c) {terms : ReservationTerms}
    {b : ResolvedBinding} (ok : c.resolveBinding terms = .ok b) : Bound b.resources := by
  have rest : ∀ binding : ResolvedBinding,
      (∀ ref ∈ binding.resources, ref.resource.empty = false) →
      (do
        let resources ← canonicalizeResources binding.resources
        let failureDomains ← canonicalizeFailureDomains binding.failureDomains
        pure { binding with resources, failureDomains } : Result ResolvedBinding) = .ok b →
      Bound b.resources := by
    intro binding named ok
    obtain ⟨resources, canonical, ok⟩ := Result.bind_eq_ok.mp ok
    obtain ⟨domains, -, ok⟩ := Result.bind_eq_ok.mp ok
    obtain rfl := Except.ok.inj ok
    have mem := mem_canonicalizeResources canonical
    obtain ⟨-, -, strict⟩ := canonicalizeResources_eq_ok.mp canonical
    exact ⟨fun ref href => named ref ((mem ref).mp href), strict.imp fun {a b} less => ne_of_lt less⟩
  unfold resolveBinding at ok
  dsimp only at ok
  split at ok
  · obtain ⟨binding, bound, ok⟩ := Result.bind_eq_ok.mp ok
    exact rest binding (bindResources_named h (fun _ mem => absurd mem List.not_mem_nil) bound) ok
  · obtain ⟨binding, bound, ok⟩ := Result.bind_eq_ok.mp ok
    refine rest binding ?_ ok
    exact bindPath_named h (fun _ mem => absurd mem List.not_mem_nil) bound

/-- Valid terms ask for something. -/
theorem validateTerms_amount {terms : ReservationTerms} (ok : validateTerms terms = .ok ()) :
    0 < terms.amount.val := by
  unfold validateTerms at ok
  obtain ⟨⟨⟩, -, ok⟩ := Result.bind_eq_ok.mp ok
  obtain ⟨⟨⟩, -, ok⟩ := Result.bind_eq_ok.mp ok
  obtain ⟨⟨⟩, -, ok⟩ := Result.bind_eq_ok.mp ok
  obtain ⟨⟨⟩, amounts, -⟩ := Result.bind_eq_ok.mp ok
  unfold validateAmounts at amounts
  obtain ⟨⟨⟩, positive, -⟩ := Result.bind_eq_ok.mp amounts
  simpa using positive

/-- Valid terms have a valid window. -/
theorem validateTerms_interval {terms : ReservationTerms} (ok : validateTerms terms = .ok ()) :
    validateInterval terms.interval = .ok () := by
  unfold validateTerms at ok
  obtain ⟨⟨⟩, -, ok⟩ := Result.bind_eq_ok.mp ok
  obtain ⟨⟨⟩, -, ok⟩ := Result.bind_eq_ok.mp ok
  obtain ⟨⟨⟩, valid, -⟩ := Result.bind_eq_ok.mp ok
  exact valid

/-- A record of positive amount on a resolved binding can be indexed. -/
theorem sound_of_bound {r : ReservationRecord} {refs : List ResourceRef} (bound : Bound refs)
    (resources : r.authority.resources = refs) (amount : 0 < r.terms.amount.val) : r.Sound :=
  ⟨amount, by rw [resources]; exact bound.1, by rw [resources]; exact bound.2⟩

end Coordinator

/-! ## The windows of a series -/

theorem expandMembers_length {first : Interval} {period : Duration} {span : Int} :
    ∀ {count i : Nat} {out : List Interval},
      expandMembers first period span count i = .ok out → out.length = count
  | 0, _, out, ok => by
    obtain rfl := Except.ok.inj ok
    rfl
  | count + 1, i, out, ok => by
    unfold expandMembers at ok
    obtain ⟨⟨⟩, -, ok⟩ := Result.bind_eq_ok.mp ok
    obtain ⟨⟨⟩, -, ok⟩ := Result.bind_eq_ok.mp ok
    obtain ⟨rest, hrest, ok⟩ := Result.bind_eq_ok.mp ok
    obtain rfl := Except.ok.inj ok
    rw [List.length_cons, expandMembers_length hrest]

/-- A series has as many windows as its specification says, and at least one. -/
theorem expandSeries_length {first : Interval} {spec : RecurrenceSpec} {maxMembers : Nat}
    {out : List Interval} (ok : expandSeries first spec maxMembers = .ok out) :
    out.length = (if spec.enabled then spec.count.val else 1) ∧ 0 < out.length := by
  unfold expandSeries at ok
  cases enabled : spec.enabled with
  | false =>
    rw [enabled] at ok
    obtain rfl := Except.ok.inj ok
    exact ⟨rfl, Nat.one_pos⟩
  | true =>
    rw [enabled] at ok
    simp only [Bool.not_true, Bool.false_eq_true, if_false] at ok
    obtain ⟨⟨⟩, some, ok⟩ := Result.bind_eq_ok.mp ok
    obtain ⟨⟨⟩, -, ok⟩ := Result.bind_eq_ok.mp ok
    obtain ⟨⟨⟩, -, ok⟩ := Result.bind_eq_ok.mp ok
    obtain ⟨⟨⟩, -, ok⟩ := Result.bind_eq_ok.mp ok
    obtain ⟨⟨⟩, -, ok⟩ := Result.bind_eq_ok.mp ok
    obtain ⟨⟨⟩, -, ok⟩ := Result.bind_eq_ok.mp ok
    have length := expandMembers_length ok
    have pos : spec.count.val ≠ 0 := by simpa using some
    exact ⟨by simpa using length, by omega⟩

theorem expandMembers_valid {first : Interval} {period : Duration} {span : Int} :
    ∀ {count i : Nat} {out : List Interval},
      expandMembers first period span count i = .ok out → ∀ w ∈ out, validateInterval w = .ok ()
  | 0, _, out, ok => by
    obtain rfl := Except.ok.inj ok
    exact fun _ no => absurd no List.not_mem_nil
  | count + 1, i, out, ok => by
    unfold expandMembers at ok
    obtain ⟨⟨⟩, -, ok⟩ := Result.bind_eq_ok.mp ok
    obtain ⟨⟨⟩, valid, ok⟩ := Result.bind_eq_ok.mp ok
    obtain ⟨rest, hrest, ok⟩ := Result.bind_eq_ok.mp ok
    obtain rfl := Except.ok.inj ok
    intro w mem
    rcases List.mem_cons.mp mem with rfl | mem
    · exact valid
    · exact expandMembers_valid hrest w mem

/-- The windows of a series are valid if its first one is. -/
theorem expandSeries_valid {first : Interval} {spec : RecurrenceSpec} {maxMembers : Nat}
    {out : List Interval} (ok : expandSeries first spec maxMembers = .ok out)
    (valid : validateInterval first = .ok ()) : ∀ w ∈ out, validateInterval w = .ok () := by
  unfold expandSeries at ok
  cases enabled : spec.enabled with
  | false =>
    rw [enabled] at ok
    obtain rfl := Except.ok.inj ok
    intro w mem
    rw [List.mem_singleton.mp mem]
    exact valid
  | true =>
    rw [enabled] at ok
    simp only [Bool.not_true, Bool.false_eq_true, if_false] at ok
    obtain ⟨⟨⟩, -, ok⟩ := Result.bind_eq_ok.mp ok
    obtain ⟨⟨⟩, -, ok⟩ := Result.bind_eq_ok.mp ok
    obtain ⟨⟨⟩, -, ok⟩ := Result.bind_eq_ok.mp ok
    obtain ⟨⟨⟩, -, ok⟩ := Result.bind_eq_ok.mp ok
    obtain ⟨⟨⟩, -, ok⟩ := Result.bind_eq_ok.mp ok
    obtain ⟨⟨⟩, -, ok⟩ := Result.bind_eq_ok.mp ok
    exact expandMembers_valid ok

namespace Coordinator

/-! ## What the commits register -/

/-- One create registers as many records as there are windows. -/
theorem createRecords_cons {p : CreatePlan} (c : Coordinator) (windows : 0 < p.intervals.length) :
    (c.createRecords p).headD {} :: (c.createRecords p).tail = c.createRecords p := by
  obtain ⟨first, rest, split⟩ := List.exists_cons_of_length_pos windows
  unfold createRecords
  split
  · rw [split, List.mapIdx_cons]
    rfl
  · rfl

theorem createMutation_records {p : CreatePlan} (c : Coordinator) (victims : List IndexEntry)
    (windows : 0 < p.intervals.length) :
    (c.createMutation p victims).record :: (c.createMutation p victims).members =
      c.createRecords p := createRecords_cons c windows

theorem sound_createRecords {c e : Coordinator} (h : Consistent c) {p : CreatePlan}
    (admitted : p.Admitted c) : ∀ r ∈ e.createRecords p, r.Sound := by
  have bound := resolveBinding_bound h admitted.binding
  have amount := validateTerms_amount admitted.terms
  have made : ∀ id window index member, (e.makeRecord p id window index member).Sound :=
    fun id window index member => sound_of_bound bound rfl amount
  intro r mem
  unfold createRecords at mem
  split at mem
  · obtain ⟨i, _, rfl⟩ := List.mem_mapIdx.mp mem
    exact made _ _ _ _
  · rw [List.mem_singleton.mp mem]
    exact made _ _ _ _

theorem sound_makeSuccessor {c e : Coordinator} (h : Consistent c) {p : AmendPlan}
    (admitted : p.Admitted c) (previous : ReservationRecord) (window : Interval) :
    (e.makeSuccessor p previous window).Sound := by
  have amount := validateTerms_amount admitted.terms
  exact sound_of_bound (resolveBinding_bound h admitted.binding) rfl amount

/-- What an amendment registers: the members at the new windows, or the next generation of the
record. -/
theorem amendMutation_successors {c : Coordinator} {p : AmendPlan}
    {superseded successors : List ReservationRecord} {mutation : ReservationMutation}
    (made : c.amendMutation p superseded = .ok (mutation, successors)) :
    (mutation.record :: mutation.members).Perm successors ∧
      ((p.predecessor.seriesMember = true ∧
          successors = p.intervals.mapIdx (c.amendedMember p superseded)) ∨
        (p.predecessor.seriesMember = false ∧
          successors = [c.makeSuccessor p p.predecessor (p.intervals.headD {})])) := by
  unfold amendMutation at made
  split at made
  · rename_i member
    unfold amendSeriesMutation at made
    split at made
    · cases made
    · split at made
      · cases made
      · dsimp only at made
        split at made
        · cases made
        · rename_i i _ _ record there
          obtain ⟨rfl, rfl⟩ := Prod.mk.inj (Except.ok.inj made)
          obtain ⟨inside, rfl⟩ := List.getElem?_eq_some_iff.mp there
          exact ⟨List.getElem_cons_eraseIdx_perm inside, .inl ⟨member, rfl⟩⟩
  · rename_i single
    obtain ⟨rfl, rfl⟩ := Prod.mk.inj (Except.ok.inj made)
    exact ⟨.refl _, .inr ⟨by simpa using single, rfl⟩⟩

/-- Every successor of an amendment can be indexed. -/
theorem sound_amendMutation {c e : Coordinator} (h : Consistent c) {p : AmendPlan}
    (admitted : p.Admitted c) {superseded successors : List ReservationRecord}
    {mutation : ReservationMutation}
    (ok : e.amendMutation p superseded = .ok (mutation, successors)) :
    ∀ r ∈ successors, r.Sound := by
  have bound := resolveBinding_bound h admitted.binding
  have amount := validateTerms_amount admitted.terms
  intro r mem
  rcases (amendMutation_successors ok).2 with ⟨-, rfl⟩ | ⟨-, rfl⟩
  · obtain ⟨i, -, rfl⟩ := List.mem_mapIdx.mp mem
    unfold amendedMember
    split
    · exact sound_of_bound bound rfl amount
    · exact sound_of_bound bound rfl amount
  · rw [List.mem_singleton.mp mem]
    exact sound_makeSuccessor h admitted _ _

/-! ## Durable records and evaluations -/

/-- The state after an append; `faults` are those that are left. -/
def logged (c : Coordinator) (d : DurableRecord) (faults : List Bool) : Coordinator :=
  c.withStore (c.store.logged d.kind (encodeRecord d) faults)

theorem Appended.shape {d : DurableRecord} {c c₁ : Coordinator} (h : Appended d c c₁) :
    ∃ faults, c₁ = c.logged d faults := h.2

theorem Consistent.appended {d : DurableRecord} {c c₁ : Coordinator} (h : Consistent c)
    (appended : Appended d c c₁) : Consistent c₁ := by
  obtain ⟨w, faults, rfl⟩ := appended
  exact h.congr (h.store.logged w d.kind faults) rfl rfl rfl rfl

theorem Appended.suspended {d : DurableRecord} {c c₁ : Coordinator} (appended : Appended d c c₁) :
    c₁.suspended = c.suspended := by
  obtain ⟨w, faults, rfl⟩ := appended
  rfl

/-- An evaluation is consistent, though entries have left the index. -/
theorem Evaluation.consistent {c e : Coordinator} (h : Consistent c) (evaluation : Evaluation c e) :
    Consistent e := by
  obtain ⟨⟨index, suspended, rfl⟩, wf, -, has⟩ := evaluation
  exact (h.withIndex wf fun f hf _ => (has f).mpr (.inl hf)).congr h.store rfl rfl rfl rfl

/-- The state from which an evaluated commit is projected. -/
theorem Evaluation.logged {c e e₁ : Coordinator} {d : DurableRecord} (evaluation : Evaluation c e)
    (appended : Appended d e e₁) : ∃ faults index suspended,
      e₁ = (c.logged d faults).evaluating index suspended ∧ Appended d c (c.logged d faults) := by
  obtain ⟨⟨index, suspended, rfl⟩, -, -, -⟩ := evaluation
  obtain ⟨w, faults, rfl⟩ := appended
  exact ⟨faults, index, suspended, rfl, w, faults, rfl⟩

/-! ## The pure forms of the commits -/

/-- **A create** makes one record durable, and leaves what that record says. -/
theorem takes_create {c c' : Coordinator} (h : Idle c) {p : CreatePlan} {victims : List IndexEntry}
    (takes : (Move.create p victims).Takes c c') : ∃ faults y,
      Appended (.reservationCommit (c.createMutation p victims)) c
        (c.logged (.reservationCommit (c.createMutation p victims)) faults) ∧
      c' = ((c.logged (.reservationCommit (c.createMutation p victims)) faults).afterCreate p
        (c.createMutation p victims) (c.store.lastSequence + 1)).withIndex y ∧ Idle c' := by
  obtain ⟨admitted, e, evaluation, -, -, -, -, e₁, appended, rfl⟩ := takes
  have same : e.createMutation p victims = c.createMutation p victims := by
    obtain ⟨⟨index, suspended, rfl⟩, -, -, -⟩ := evaluation
    rfl
  rw [same] at appended ⊢
  have windows := (expandSeries_length admitted.intervals).2
  have sound : ∀ r ∈ (c.createMutation p victims).record :: (c.createMutation p victims).members,
      r.Sound := by
    rw [createMutation_records c victims windows]
    exact sound_createRecords h.consistent admitted
  have done := ensures_projectCreate ((evaluation.consistent h.consistent).appended appended) p sound
    e₁.store.lastSequence
  obtain ⟨faults, index, suspended, rfl, durable⟩ := evaluation.logged appended
  obtain ⟨-, y, left, consistent⟩ := done
  rw [afterCreate_evaluating, withIndex_withIndex] at left
  refine ⟨faults, y, durable, left, consistent, ?_⟩
  rw [left]
  rfl

/-- **An amendment** makes one record durable, and leaves what that record says. -/
theorem takes_amend {c c' : Coordinator} (h : Idle c) {p : AmendPlan}
    {superseded successors : List ReservationRecord} {mutation : ReservationMutation}
    (takes : (Move.amend p superseded successors mutation).Takes c c') :
    c.amendMutation p superseded = .ok (mutation, successors) ∧ ∃ faults y,
      Appended (.reservationAmend mutation) c (c.logged (.reservationAmend mutation) faults) ∧
      c' = ((c.logged (.reservationAmend mutation) faults).afterAmend p superseded successors
        mutation (c.makeProvenance p.context c.predictedSequence p.now)
        (c.store.lastSequence + 1)).withIndex y ∧ Idle c' := by
  obtain ⟨admitted, -, e, evaluation, -, made, -, e₁, appended, rfl⟩ := takes
  have same : e.amendMutation p superseded = c.amendMutation p superseded ∧
      e.makeProvenance p.context e.predictedSequence p.now =
        c.makeProvenance p.context c.predictedSequence p.now := by
    obtain ⟨⟨index, suspended, rfl⟩, -, -, -⟩ := evaluation
    exact ⟨rfl, rfl⟩
  rw [same.2]
  have done := ensures_projectAmend ((evaluation.consistent h.consistent).appended appended) p
    superseded (sound_amendMutation h.consistent admitted made) mutation
    (c.makeProvenance p.context c.predictedSequence p.now) e₁.store.lastSequence
  obtain ⟨faults, index, suspended, rfl, durable⟩ := evaluation.logged appended
  obtain ⟨-, y, left, consistent⟩ := done
  rw [afterAmend_evaluating, withIndex_withIndex] at left
  refine ⟨same.1.symm.trans made, faults, y, durable, left, consistent, ?_⟩
  rw [left]
  rfl

/-- **A revalidation** makes one record durable, and leaves what that record says. -/
theorem takes_revalidate {c c' : Coordinator} (h : Idle c) {r : ReservationRecord}
    {binding : ResolvedBinding} {now : Timestamp} {context : RequestContext}
    (takes : (Move.revalidate r binding now context).Takes c c') :
    let mutation := c.revalidationMutation r (c.revalidatedSuccessor r binding now context) now
    ∃ faults y,
      Appended (.reservationAmend mutation) c (c.logged (.reservationAmend mutation) faults) ∧
      c' = ((c.logged (.reservationAmend mutation) faults).afterRevalidation r now mutation
        (c.makeProvenance context c.predictedSequence now)).withIndex y ∧ Idle c' := by
  obtain ⟨resolved, stored, -, e, evaluation, -, -, e₁, appended, rfl⟩ := takes
  have same : e.revalidationMutation r (e.revalidatedSuccessor r binding now context) now =
        c.revalidationMutation r (c.revalidatedSuccessor r binding now context) now ∧
      e.makeProvenance context e.predictedSequence now =
        c.makeProvenance context c.predictedSequence now ∧ e.records = c.records := by
    obtain ⟨⟨index, suspended, rfl⟩, -, -, -⟩ := evaluation
    exact ⟨rfl, rfl, rfl⟩
  rw [same.1] at appended ⊢
  rw [same.2.1]
  have sound : (c.revalidationMutation r (c.revalidatedSuccessor r binding now context)
      now).record.Sound :=
    sound_of_bound (resolveBinding_bound h.consistent resolved) rfl
      (h.consistent.sound _ _ stored).amount
  have there : e₁.records[r.key]? = some r := by
    obtain ⟨-, faults, rfl⟩ := appended
    exact same.2.2 ▸ stored
  have done := ensures_projectRevalidation ((evaluation.consistent h.consistent).appended appended)
    there now sound (c.makeProvenance context c.predictedSequence now)
  obtain ⟨faults, index, suspended, rfl, durable⟩ := evaluation.logged appended
  obtain ⟨-, y, left, consistent⟩ := done
  rw [afterRevalidation_evaluating, withIndex_withIndex] at left
  refine ⟨faults, y, durable, left, consistent, ?_⟩
  rw [left]
  rfl

/-! ## The pure forms of the changes of one record -/

/-- Retaining an attempt concerns the attempts alone. -/
theorem idle_retain {c : Coordinator} (h : Idle c) (retained : Bool) (attempt : AttemptRecord) :
    Idle (c.retain retained attempt) := by
  cases retained with
  | false => exact h
  | true => exact ⟨h.consistent.congr h.consistent.store rfl rfl rfl rfl, h.suspended⟩

/-- A record in its next form, in a state with another index. -/
theorem idle_moved {c : Coordinator} (h : Idle c) {r next : ReservationRecord} {y : CapacityIndex}
    (sound : next.Sound) (wf : y.Wf) (tracks : Tracks c next y) :
    Idle ((c.moveRecord r next).withIndex y) := by
  refine ⟨consistent_replaced h.consistent sound wf tracks, ?_⟩
  have suspended := (aside_moveRecord r next).suspended c
  exact suspended.trans h.suspended

/-- What index the state has does not matter when another takes its place. -/
theorem moveRecord_reindexed (c : Coordinator) (r next : ReservationRecord) (y z : CapacityIndex) :
    ((c.withIndex y).moveRecord r next).withIndex z = (c.moveRecord r next).withIndex z := by
  rw [(aside_moveRecord r next).withIndex]
  rfl

theorem Idle.appended {d : DurableRecord} {c c₁ : Coordinator} (h : Idle c)
    (appended : Appended d c c₁) : Idle c₁ :=
  ⟨h.consistent.appended appended, appended.suspended.trans h.suspended⟩

/-- **A transition** makes one record durable, moves its record, and retains the attempt of a
caller. -/
theorem takes_transition {c c' : Coordinator} (h : Idle c) {r : ReservationRecord}
    {target : ReservationState} {now : Timestamp} {reason : Text} {context : RequestContext}
    {retained : Bool} (takes : (Move.transition r target now reason context retained).Takes c c') :
    let d := DurableRecord.reservationState (transitionMutation r target now reason context 0)
    ∃ faults y, Appended d c (c.logged d faults) ∧
      c' = (((c.logged d faults).moveRecord r (c.transitioned r target now reason context 0
        (c.store.lastSequence + 1))).withIndex y).retain retained
          (handedAttempt r target now context (c.store.lastSequence + 1)) ∧ Idle c' := by
  obtain ⟨stored, -, -, c₁, appended, rfl⟩ := takes
  obtain ⟨faults, rfl⟩ := appended.shape
  have h₁ := h.appended appended
  have sound := h.consistent.sound _ _ stored
  obtain ⟨-, y, left, wf, follows⟩ := ensures_applyTransition h₁.consistent.index sound target now
    reason context 0 (c.store.lastSequence + 1)
  obtain ⟨key, terms, authority⟩ := transitioned_kept (c.logged
    (.reservationState (transitionMutation r target now reason context 0)) faults) r target now
    reason context 0 (c.store.lastSequence + 1)
  have idle := idle_moved (r := r) h₁ (Sound.of_kept sound terms authority) wf
    (follows.tracks h₁.consistent.index)
  refine ⟨faults, y, appended, ?_, ?_⟩
  · exact congrArg (fun d : Coordinator => d.retain retained _) left
  · have left' := congrArg (fun d : Coordinator => d.retain retained
      (handedAttempt r target now context (c.store.lastSequence + 1))) left
    exact left' ▸ idle_retain idle retained _

/-- **A recall** is a pending transition and a grace that the record of the transition leaves out. -/
theorem takes_recall {c c' : Coordinator} (h : Idle c) {r : ReservationRecord} {now : Timestamp}
    {reason : Text} {context : RequestContext} {effect : Timestamp} {grace : Duration}
    (takes : (Move.pendRecall r now reason context effect grace).Takes c c') :
    let d := DurableRecord.reservationState
      (transitionMutation r .recallPending now reason context effect)
    let moved := c.transitioned r .recallPending now reason context effect
      (c.store.lastSequence + 1)
    ∃ faults y, Appended d c (c.logged d faults) ∧
      c' = ((((c.logged d faults).moveRecord r moved).moveRecord moved
        (moved.graced grace)).withIndex y).retain true
          (handedAttempt r .recallPending now context (c.store.lastSequence + 1)) ∧ Idle c' := by
  obtain ⟨stored, -, -, -, c₁, appended, rfl⟩ := takes
  obtain ⟨faults, rfl⟩ := appended.shape
  have h₁ := h.appended appended
  have sound := h.consistent.sound _ _ stored
  obtain ⟨-, terms, authority⟩ := transitioned_kept c r .recallPending now reason context effect
    (c.store.lastSequence + 1)
  have msound := Sound.of_kept sound terms authority
  have run : Op.Ensures (do
      let moved ← applyTransition r .recallPending now reason context effect
        (c.store.lastSequence + 1)
      setGrace moved grace : Method ReservationRecord)
      (c.logged (.reservationState (transitionMutation r .recallPending now reason context effect))
        faults) (fun _ d => ∃ y, d = (((c.logged (.reservationState
          (transitionMutation r .recallPending now reason context effect)) faults).moveRecord r
            (c.transitioned r .recallPending now reason context effect
              (c.store.lastSequence + 1))).moveRecord (c.transitioned r .recallPending now reason
                context effect (c.store.lastSequence + 1)) ((c.transitioned r .recallPending now
                  reason context effect (c.store.lastSequence + 1)).graced grace)).withIndex y ∧
                    Idle d) := by
    apply Op.ensures_bind
    refine (ensures_applyTransition h₁.consistent.index sound .recallPending now reason context
      effect (c.store.lastSequence + 1)).mono ?_
    rintro _ _ ⟨rfl, y, rfl, wf, follows⟩
    have idle := idle_moved (r := r) h₁ msound wf (follows.tracks h₁.consistent.index)
    refine (ensures_setGrace idle.consistent.index msound grace).mono ?_
    rintro _ _ ⟨-, z, rfl, wf', updated⟩
    refine ⟨z, ?_, idle_moved idle (Sound.of_kept msound rfl rfl) wf'
      (updated.tracks idle.consistent.index)⟩
    exact moveRecord_reindexed _ _ _ y z
  obtain ⟨y, left, idle⟩ := run
  refine ⟨faults, y, appended, ?_, ?_⟩
  · exact congrArg (fun d : Coordinator => d.retain true _) left
  · have left' := congrArg (fun d : Coordinator => d.retain true
      (handedAttempt r .recallPending now context (c.store.lastSequence + 1))) left
    exact idle_retain idle true _

/-- **A mark** makes one record durable and moves its record. -/
theorem takes_mark {c c' : Coordinator} (h : Idle c) {r : ReservationRecord}
    {applicability : Applicability} {reason : ApplicabilityReason} {now : Timestamp}
    (takes : (Move.mark r applicability reason now).Takes c c') :
    let d := DurableRecord.reservationApplicability
      { id := r.id, generation := r.generation, applicability, reason, at' := now }
    ∃ faults y, Appended d c (c.logged d faults) ∧
      c' = ((c.logged d faults).moveRecord r (r.marked applicability reason now
        (c.store.lastSequence + 1))).withIndex y ∧ Idle c' := by
  obtain ⟨stored, -, -, c₁, appended, rfl⟩ := takes
  obtain ⟨faults, rfl⟩ := appended.shape
  have h₁ := h.appended appended
  have sound := h.consistent.sound _ _ stored
  obtain ⟨-, y, left, wf, synced⟩ := ensures_applyMark h₁.consistent.index sound applicability
    reason now (c.store.lastSequence + 1)
  have msound : (r.marked applicability reason now (c.store.lastSequence + 1)).Sound :=
    Sound.of_kept sound rfl rfl
  have idle := idle_moved (r := r) h₁ msound wf (synced.tracks h₁.consistent.index)
  exact ⟨faults, y, appended, left, left ▸ idle⟩

/-! ## Holds -/

/-- The reservation entries of an index are those of another. -/
def SameReservations (x y : CapacityIndex) : Prop :=
  ∀ e : IndexEntry, e.kind = .reservation → (y.Has e ↔ x.Has e)

/-- The holds and their entries are all that has changed. -/
def HoldsOnly (c c' : Coordinator) : Prop :=
  ∃ holds y, c' = { c with holds, index := y } ∧ y.Wf ∧ SameReservations c.index y

theorem HoldsOnly.refl {c : Coordinator} (wf : c.index.Wf) : HoldsOnly c c :=
  ⟨c.holds, c.index, rfl, wf, fun _ _ => Iff.rfl⟩

theorem HoldsOnly.trans {a b c : Coordinator} (h : HoldsOnly a b) (h' : HoldsOnly b c) :
    HoldsOnly a c := by
  obtain ⟨_, y, rfl, -, same⟩ := h
  obtain ⟨holds, z, rfl, wf, same'⟩ := h'
  exact ⟨holds, z, rfl, wf, fun e kind => (same' e kind).trans (same e kind)⟩

theorem HoldsOnly.idle {c c' : Coordinator} (h : Idle c) (moved : HoldsOnly c c') : Idle c' := by
  obtain ⟨holds, y, rfl, wf, same⟩ := moved
  have h' := h.consistent.withIndex wf fun e he kind => (same e kind).mp he
  exact ⟨h'.congr h'.store rfl rfl rfl rfl, h.suspended⟩

theorem holdsOnly_eraseAll {c : Coordinator} (wf : c.index.Wf) (id : HoldId) :
    Op.Ensures (onIndex (CapacityIndex.eraseAll .hold id)) c fun _ c' => HoldsOnly c c' := by
  refine (ensures_onIndex (CapacityIndex.ensures_eraseAll wf .hold id)).mono ?_
  rintro _ _ ⟨y, rfl, ywf, has, -⟩
  refine ⟨c.holds, y, rfl, ywf, fun e kind => (has e).trans ⟨And.left, fun he => ⟨he, ?_⟩⟩⟩
  rw [kind]
  rintro ⟨same, -⟩
  exact absurd same (by decide)

theorem holdsOnly_releaseHold {c : Coordinator} (wf : c.index.Wf) (now : Timestamp) (id : HoldId)
    (reason : Text) : Op.Ensures (releaseHold now id reason) c fun _ c' => HoldsOnly c c' := by
  unfold releaseHold
  apply Op.ensures_get_bind
  cases c.holds[id]? with
  | none => exact HoldsOnly.refl wf
  | some hold =>
    refine Op.ensures_ite (fun _ => HoldsOnly.refl wf) fun _ => ?_
    apply Op.ensures_modify_bind
    have moved : HoldsOnly c
        { c with holds := c.holds.insert id (hold.release now (sanitizeReason reason)) } :=
      ⟨_, c.index, rfl, wf, fun _ _ => Iff.rfl⟩
    apply Op.ensures_get_bind
    refine Op.ensures_ite (fun _ => ?_) fun _ => moved
    apply Op.ensures_discard
    apply Op.ensures_attempt
    exact (holdsOnly_eraseAll (c := { c with
      holds := c.holds.insert id (hold.release now (sanitizeReason reason)) }) wf id).mono
        fun _ _ erased => moved.trans erased

theorem holdsOnly_indexHold {c : Coordinator} (wf : c.index.Wf) (h : HoldRecord)
    (name : ResourceName) : Op.Ensures (indexHold h name) c fun _ c' => HoldsOnly c c' := by
  unfold indexHold
  apply Op.ensures_bind
  apply Op.ensures_attempt
  refine (ensures_onIndex (CapacityIndex.ensures_insert wf (holdEntry h name))).mono ?_
  rintro (err | ⟨⟩) _ ⟨y, rfl, ywf, result⟩
  · obtain ⟨rfl, -⟩ := result
    apply Op.ensures_bind
    apply Op.ensures_discard
    apply Op.ensures_attempt
    refine (holdsOnly_eraseAll (c := c.withIndex c.index) wf h.id).mono ?_
    intro _ _ erased
    exact erased
  · obtain ⟨-, -, has⟩ := result
    refine ⟨c.holds, y, rfl, ywf, fun e kind => (has e).trans ⟨?_, .inr⟩⟩
    rintro (rfl | he)
    · exact absurd kind (by simp [holdEntry])
    · exact he

theorem holdsOnly_indexHolds (h : HoldRecord) : ∀ {names : List ResourceName} {c : Coordinator},
    c.index.Wf → Op.Ensures (Op.each (indexHold h) names) c fun _ c' => HoldsOnly c c' := by
  intro names c wf
  refine Op.ensures_each (I := fun c' => HoldsOnly c c') (HoldsOnly.refl wf) ?_
  intro name _ d moved
  have dwf : d.index.Wf := by
    obtain ⟨_, y, rfl, ywf, -⟩ := moved
    exact ywf
  exact (holdsOnly_indexHold dwf h name).mono fun _ _ next => moved.trans next

/-! ## Ledgers -/

/-- A ledger files every resource under its name. -/
def NamedLedger (ledger : CapacityLedger) : Prop :=
  ∀ (n : ResourceName) (entry : CapacityEntry), ledger[n]? = some entry →
    entry.capacity.resource = n ∧ n.empty = false

theorem NamedLedger.insert {ledger : CapacityLedger} (h : NamedLedger ledger)
    (entry : CapacityEntry) (named : entry.capacity.resource.empty = false) :
    NamedLedger (ledger.insert entry.capacity.resource entry) := by
  intro n found there
  rw [Map.get_insert] at there
  by_cases same : n = entry.capacity.resource
  · rw [if_pos same] at there
    obtain rfl := Option.some.inj there
    exact ⟨same.symm, same ▸ named⟩
  · rw [if_neg same] at there
    exact h n found there

theorem namedLedger_apply {ledger ledger' : CapacityLedger} (h : NamedLedger ledger)
    {capacity : ResourceCapacity} {snapshot : CapacitySnapshotId} {now : Timestamp} {changed : Bool}
    (ok : ledger.apply capacity snapshot now = .ok (changed, ledger')) : NamedLedger ledger' := by
  unfold CapacityLedger.apply at ok
  obtain ⟨⟨⟩, valid, ok⟩ := Result.bind_eq_ok.mp ok
  have named : capacity.resource.empty = false := by
    unfold validateCapacity at valid
    obtain ⟨⟨⟩, named, -⟩ := Result.bind_eq_ok.mp valid
    simpa using named
  cases found : ledger[capacity.resource]? with
  | none =>
    rw [found] at ok
    obtain ⟨-, rfl⟩ := Prod.mk.inj (Except.ok.inj ok)
    exact h.insert { capacity, snapshot, ingestedAt := now } named
  | some entry =>
    obtain ⟨same, -⟩ := h _ _ found
    rw [found] at ok
    dsimp only at ok
    split at ok
    · split at ok
      · split at ok
        · obtain ⟨-, rfl⟩ := Prod.mk.inj (Except.ok.inj ok)
          rw [← same]
          exact h.insert { entry with withdrawn := false, snapshot, ingestedAt := now }
            (same ▸ named)
        · obtain ⟨-, rfl⟩ := Prod.mk.inj (Except.ok.inj ok)
          exact h
      · exact absurd ok (by simp [throw, throwThe, MonadExceptOf.throw])
    · split at ok
      · exact absurd ok (by simp [throw, throwThe, MonadExceptOf.throw])
      · obtain ⟨-, rfl⟩ := Prod.mk.inj (Except.ok.inj ok)
        exact h.insert
          { capacity
            snapshot
            ingestedAt := now
            priorGenerations := entry.priorGenerations ++ [entry.capacity.generation] } named

theorem namedLedger_withdraw {ledger ledger' : CapacityLedger} (h : NamedLedger ledger)
    {resource : ResourceName} {now : Timestamp}
    (ok : ledger.withdraw resource now = .ok ledger') : NamedLedger ledger' := by
  unfold CapacityLedger.withdraw at ok
  cases found : ledger[resource]? with
  | none =>
    rw [found] at ok
    exact absurd ok (by simp)
  | some entry =>
    obtain ⟨same, named⟩ := h _ _ found
    rw [found] at ok
    dsimp only at ok
    split at ok
    · obtain rfl := Except.ok.inj ok
      exact h
    · obtain rfl := Except.ok.inj ok
      rw [← same]
      exact h.insert { entry with withdrawn := true, withdrawnAt := now } (same ▸ named)

/-- The ledger is all that has changed. -/
def LedgerOnly (c c' : Coordinator) : Prop :=
  ∃ ledger, c' = { c with ledger } ∧ (NamedLedger c.ledger → NamedLedger ledger)

theorem LedgerOnly.refl (c : Coordinator) : LedgerOnly c c := ⟨c.ledger, rfl, fun h => h⟩

theorem LedgerOnly.trans {a b c : Coordinator} (h : LedgerOnly a b) (h' : LedgerOnly b c) :
    LedgerOnly a c := by
  obtain ⟨_, rfl, named⟩ := h
  obtain ⟨ledger, rfl, named'⟩ := h'
  exact ⟨ledger, rfl, fun h => named' (named h)⟩

instance : IsPreorder Coordinator LedgerOnly where
  refl := .refl
  trans _ _ _ := .trans

theorem within_applyCapacities (snapshot : CapacitySnapshotId) (now : Timestamp) :
    ∀ capacities : List ResourceCapacity,
      Op.Within LedgerOnly (applyCapacities snapshot now capacities)
  | [] => Op.within_pure _
  | capacity :: rest => by
    unfold applyCapacities
    refine Op.within_get_bind fun c => ?_
    refine Op.ensures_lift_bind (fun changed ok => ?_) fun _ _ => .refl c
    obtain ⟨changed, ledger⟩ := changed
    apply Op.ensures_modify_bind
    have moved : LedgerOnly c { c with ledger } :=
      ⟨ledger, rfl, fun h => namedLedger_apply h ok⟩
    have tail := Op.within_bind (within_applyCapacities snapshot now rest)
      fun applied => Op.within_pure (if changed then capacity :: applied else applied)
    exact (tail { c with ledger }).mono fun _ _ later => moved.trans later

theorem within_withdrawAll (now : Timestamp) : ∀ names : List ResourceName,
    Op.Within LedgerOnly (withdrawAll now names)
  | [] => Op.within_pure _
  | name :: rest => by
    unfold withdrawAll
    refine Op.within_get_bind fun c => ?_
    cases result : c.ledger.withdraw name now with
    | error e =>
      exact Op.within_bind (Op.within_refuseIf _ _) (fun _ => within_withdrawAll now rest) c
    | ok ledger =>
      apply Op.ensures_modify_bind
      have moved : LedgerOnly c { c with ledger } :=
        ⟨ledger, rfl, fun h => namedLedger_withdraw h result⟩
      have tail := Op.within_bind (within_withdrawAll now rest)
        fun withdrawn => Op.within_pure (name :: withdrawn)
      exact (tail { c with ledger }).mono fun _ _ later => moved.trans later

/-- A loop that reports no change has made none. -/
theorem applyCapacities_unchanged (snapshot : CapacitySnapshotId) (now : Timestamp) :
    ∀ {items : List ResourceCapacity} {c : Coordinator},
      Op.Ensures (applyCapacities snapshot now items) c fun r c' =>
        (∀ applied, r = .ok applied → applied.isEmpty = true → c' = c)
  | [], c => fun _ _ _ => rfl
  | capacity :: rest, c => by
    unfold applyCapacities
    apply Op.ensures_get_bind
    refine Op.ensures_lift_bind (fun out ok => ?_) fun _ _ _ no => nomatch no
    obtain ⟨changed, ledger⟩ := out
    apply Op.ensures_modify_bind
    apply Op.ensures_bind
    refine (applyCapacities_unchanged snapshot now).mono ?_
    rintro (e | applied) c' same
    · exact fun _ no => nomatch no
    · rintro out done nothing
      obtain rfl := Except.ok.inj done
      cases changed with
      | true => cases nothing
      | false =>
        rw [same applied rfl nothing, CapacityLedger.apply_unchanged ok]
        rfl

theorem withdrawAll_unchanged (now : Timestamp) :
    ∀ {names : List ResourceName} {c : Coordinator},
      Op.Ensures (withdrawAll now names) c fun r c' =>
        (∀ withdrawn, r = .ok withdrawn → withdrawn.isEmpty = true → c' = c)
  | [], c => fun _ _ _ => rfl
  | name :: rest, c => by
    unfold withdrawAll
    apply Op.ensures_get_bind
    cases result : c.ledger.withdraw name now with
    | error e =>
      exact Op.ensures_refuseIf_bind (fun _ => withdrawAll_unchanged now) fun _ _ no => nomatch no
    | ok ledger =>
      apply Op.ensures_modify_bind
      apply Op.ensures_bind
      refine (within_withdrawAll now rest _).mono ?_
      rintro (e | withdrawn) c' -
      · exact fun _ no => nomatch no
      · rintro out done nothing
        obtain rfl := Except.ok.inj done
        cases nothing

/-- The path table is all that has changed. -/
def PathsOnly (c c' : Coordinator) : Prop := ∃ paths, c' = { c with paths }

instance : IsPreorder Coordinator PathsOnly where
  refl c := ⟨c.paths, rfl⟩
  trans := by
    rintro _ _ _ ⟨_, rfl⟩ ⟨paths, rfl⟩
    exact ⟨paths, rfl⟩

theorem within_applyPaths (snapshot : CapacitySnapshotId) (now : Timestamp) :
    ∀ paths : List PathAuthority, Op.Within PathsOnly (applyPaths snapshot now paths)
  | [] => Op.within_pure _
  | path :: rest => by
    unfold applyPaths
    refine Op.within_bind Op.within_get fun _ => ?_
    refine Op.within_bind (Op.within_lift _) fun _ => ?_
    refine Op.within_bind (Op.within_modify fun _ => ⟨_, rfl⟩) fun _ => ?_
    exact Op.within_bind (within_applyPaths snapshot now rest) fun _ => Op.within_pure _

theorem applyPaths_unchanged (snapshot : CapacitySnapshotId) (now : Timestamp) :
    ∀ {items : List PathAuthority} {c : Coordinator},
      Op.Ensures (applyPaths snapshot now items) c fun r c' =>
        (∀ changed, r = .ok changed → changed.isEmpty = true → c' = c)
  | [], c => fun _ _ _ => rfl
  | path :: rest, c => by
    unfold applyPaths
    apply Op.ensures_get_bind
    refine Op.ensures_lift_bind (fun out ok => ?_) fun _ _ _ no => nomatch no
    obtain ⟨changed, paths⟩ := out
    apply Op.ensures_modify_bind
    apply Op.ensures_bind
    refine (applyPaths_unchanged snapshot now).mono ?_
    rintro (e | names) c' same
    · exact fun _ no => nomatch no
    · rintro out done nothing
      obtain rfl := Except.ok.inj done
      cases changed with
      | true => cases nothing
      | false =>
        rw [same names rfl nothing, PathTable.apply_unchanged ok]
        rfl

/-! ## Archival -/

theorem terminal_not_consumes {r : ReservationRecord} (terminal : isTerminal r.state = true) :
    r.consumes = false := by
  unfold ReservationRecord.consumes
  cases state : r.state <;> simp_all [isTerminal, consumesCapacity]

/-- The batch names stored terminal records. -/
theorem mem_retireBatch {c : Coordinator} {key : ReservationKey} (mem : key ∈ c.retireBatch) :
    ∃ r, c.records[key]? = some r ∧ isTerminal r.state = true := by
  unfold retireBatch terminalHistory at mem
  obtain ⟨⟨k, r⟩, taken, rfl⟩ := List.mem_map.mp mem
  have listed := (List.perm_insertionSort _ _).mem_iff.mp (List.mem_of_mem_take taken)
  obtain ⟨stored, terminal⟩ := List.mem_filter.mp listed
  exact ⟨r, Map.mem_toList.mp stored, terminal⟩

/-- A terminal record may leave a consistent store for the archive. -/
theorem consistent_retireRecord {c : Coordinator} (h : Consistent c) (now : Timestamp)
    {key : ReservationKey} (terminal : ∀ r, c.records[key]? = some r → isTerminal r.state = true) :
    Consistent (retireRecord now c key) := by
  unfold retireRecord
  cases stored : c.records[key]? with
  | none => exact h
  | some r =>
    have sub : ∀ (k : ReservationKey) (s : ReservationRecord),
        (c.records.erase key)[k]? = some s → c.records[k]? = some s := by
      intro k s there
      rw [Map.get_erase] at there
      split at there
      · exact absurd there (by simp)
      · exact there
    exact
      { store := h.store
        index := h.index
        keyed := fun k s there => h.keyed k s (sub k s there)
        sound := fun k s there => h.sound k s (sub k s there)
        archive := by
          intro id s there
          rw [Map.get_insert] at there
          by_cases same : id = key.id
          · rw [if_pos same] at there
            obtain rfl := Option.some.inj there
            have named := h.keyed key r stored
            exact ⟨(congrArg ReservationKey.id named).trans same.symm,
              Sound.of_kept (h.sound key r stored) rfl rfl⟩
          · rw [if_neg same] at there
            exact h.archive id s there
        backed := by
          intro e he kind
          obtain ⟨s, there, consumes⟩ := h.backed e he kind
          refine ⟨s, ?_, consumes⟩
          rw [Map.get_erase, there, if_neg]
          rintro same
          rw [← same] at terminal
          have idle := terminal_not_consumes (terminal s there)
          rw [consumes] at idle
          exact absurd idle (by decide)
        ledger := h.ledger }

theorem retireRecord_get {now : Timestamp} {c : Coordinator} {key k : ReservationKey}
    {r : ReservationRecord} (there : (retireRecord now c key).records[k]? = some r) :
    c.records[k]? = some r := by
  unfold retireRecord at there
  split at there
  · exact there
  · rw [Map.get_erase] at there
    split at there
    · exact absurd there (by simp)
    · exact there

theorem idle_retire (now : Timestamp) : ∀ {batch : List ReservationKey} {c : Coordinator}, Idle c →
    (∀ key ∈ batch, ∀ r, c.records[key]? = some r → isTerminal r.state = true) →
    Idle (batch.foldl (retireRecord now) c)
  | [], _, h, _ => h
  | key :: batch, c, h, terminal => by
    refine idle_retire now (c := retireRecord now c key)
      ⟨consistent_retireRecord h.consistent now (terminal key List.mem_cons_self), ?_⟩ ?_
    · unfold retireRecord
      split
      · exact h.suspended
      · exact h.suspended
    · intro k mem r there
      exact terminal k (List.mem_cons_of_mem _ mem) r (retireRecord_get there)

/-! ## Every move -/

/-- **Every move leads from an idle state to an idle state.** -/
theorem idle_takes {c c' : Coordinator} (h : Idle c) {m : Move} (takes : m.Takes c c') : Idle c' := by
  have other : ∀ {d : Coordinator}, d.store.InOrder → d.index = c.index → d.records = c.records →
      d.retired = c.retired → d.ledger = c.ledger → d.suspended = c.suspended → Idle d :=
    fun store index records retired ledger suspended =>
      ⟨h.consistent.congr store index records retired ledger, suspended.trans h.suspended⟩
  cases m with
  | quiet =>
    obtain ⟨faults, stats, rfl⟩ := takes
    exact other (h.consistent.store.faults faults) rfl rfl rfl rfl rfl
  | shutdown =>
    obtain rfl := takes
    exact other h.consistent.store rfl rfl rfl rfl rfl
  | snapshot =>
    obtain ⟨-, faults, rfl⟩ := takes
    exact other (h.consistent.store.withSnapshot _ faults) rfl rfl rfl rfl rfl
  | rotate =>
    obtain ⟨-, journalOpen, journalBytes, faults, rfl⟩ := takes
    exact other (h.consistent.store.rotated journalOpen journalBytes faults) rfl rfl rfl rfl rfl
  | boot boot now =>
    obtain ⟨-, c₁, appended, rfl⟩ := takes
    have h₁ := h.appended appended
    exact ⟨h₁.consistent.congr h₁.consistent.store rfl rfl rfl rfl, h₁.suspended⟩
  | claimant registration =>
    obtain ⟨-, -, c₁, appended, rfl⟩ := takes
    have h₁ := h.appended appended
    exact ⟨h₁.consistent.congr h₁.consistent.store rfl rfl rfl rfl, h₁.suspended⟩
  | refusal attempt =>
    obtain ⟨-, -, c₁, appended, rfl⟩ := takes
    exact idle_retain (h.appended appended) true _
  | transition r target now reason context retained =>
    obtain ⟨-, -, -, -, idle⟩ := takes_transition h takes
    exact idle
  | pendRecall r now reason context effect grace =>
    obtain ⟨-, -, -, -, idle⟩ := takes_recall h takes
    exact idle
  | mark r applicability reason now =>
    obtain ⟨-, -, -, -, idle⟩ := takes_mark h takes
    exact idle
  | create p victims =>
    obtain ⟨-, -, -, -, idle⟩ := takes_create h takes
    exact idle
  | amend p superseded successors mutation =>
    obtain ⟨-, -, -, -, -, idle⟩ := takes_amend h takes
    exact idle
  | revalidate r binding now context =>
    obtain ⟨-, -, -, -, idle⟩ := takes_revalidate h takes
    exact idle
  | reindexed =>
    obtain ⟨y, rfl, wf, same⟩ := takes
    exact ⟨h.consistent.withIndex wf fun e he _ => (same e).mp he, h.suspended⟩
  | releaseHold now id reason =>
    obtain ⟨-, rfl⟩ := takes
    exact HoldsOnly.idle h (holdsOnly_releaseHold h.consistent.index now id reason)
  | grantHold hold terms binding =>
    obtain ⟨-, c₁, run, rfl⟩ := takes
    have moved := @holdsOnly_indexHolds hold hold.resources _ h.consistent.index
    unfold Op.Ensures at moved
    rw [run] at moved
    have h₁ := HoldsOnly.idle h moved
    exact ⟨h₁.consistent.congr h₁.consistent.store rfl rfl rfl rfl, h₁.suspended⟩
  | refuseHold hold =>
    obtain ⟨e, run⟩ := takes
    have moved := @holdsOnly_indexHolds hold hold.resources _ h.consistent.index
    unfold Op.Ensures at moved
    rw [run] at moved
    exact HoldsOnly.idle h moved
  | capacity now stated withdrawals applied withdrawn =>
    obtain ⟨-, -, -, c₁, c₂, c₃, applies, withdraws, appended, rfl⟩ := takes
    have first := within_applyCapacities stated.id now stated.resources c
    unfold Op.Ensures at first
    rw [applies] at first
    have second := within_withdrawAll now withdrawals c₁
    unfold Op.Ensures at second
    rw [withdraws] at second
    obtain ⟨ledger, rfl, named⟩ := first.trans second
    have h₂ : Idle { c with ledger } :=
      ⟨⟨h.consistent.store, h.consistent.index, h.consistent.keyed, h.consistent.sound,
        h.consistent.archive, h.consistent.backed, named h.consistent.ledger⟩, h.suspended⟩
    have h₃ := h₂.appended appended
    exact ⟨h₃.consistent.congr h₃.consistent.store rfl rfl rfl rfl, h₃.suspended⟩
  | sawCapacity stated =>
    obtain rfl := takes
    exact other h.consistent.store rfl rfl rfl rfl rfl
  | ledger table =>
    obtain ⟨named, rfl⟩ := takes
    exact ⟨⟨h.consistent.store, h.consistent.index, h.consistent.keyed, h.consistent.sound,
      h.consistent.archive, h.consistent.backed, named⟩, h.suspended⟩
  | paths now stated changed =>
    obtain ⟨-, c₁, c₂, applies, appended, rfl⟩ := takes
    have first := within_applyPaths stated.id now stated.paths c
    unfold Op.Ensures at first
    rw [applies] at first
    obtain ⟨paths, rfl⟩ := first
    have h₁ : Idle { c with paths } :=
      ⟨h.consistent.congr h.consistent.store rfl rfl rfl rfl, h.suspended⟩
    have h₂ := h₁.appended appended
    exact ⟨h₂.consistent.congr h₂.consistent.store rfl rfl rfl rfl, h₂.suspended⟩
  | pathTable table =>
    obtain rfl := takes
    exact other h.consistent.store rfl rfl rfl rfl rfl
  | policy now record =>
    obtain ⟨policies, c₁, -, appended, rfl⟩ := takes
    have h₁ : Idle { c with policies } :=
      ⟨h.consistent.congr h.consistent.store rfl rfl rfl rfl, h.suspended⟩
    exact h₁.appended appended
  | policyTable registry =>
    obtain rfl := takes
    exact other h.consistent.store rfl rfl rfl rfl rfl
  | fence record =>
    obtain ⟨c₁, appended, rfl⟩ := takes
    have h₁ := h.appended appended
    exact ⟨h₁.consistent.congr h₁.consistent.store rfl rfl rfl rfl, h₁.suspended⟩
  | overcommit mutation =>
    obtain ⟨c₁, appended, rfl⟩ := takes
    have h₁ := h.appended appended
    exact ⟨h₁.consistent.congr h₁.consistent.store rfl rfl rfl rfl, h₁.suspended⟩
  | retire now =>
    obtain ⟨-, c₁, appended, rfl⟩ := takes
    refine idle_retire now (h.appended appended) fun key mem r there => ?_
    obtain ⟨s, stored, terminal⟩ := mem_retireBatch mem
    have same : c₁.records = c.records := by
      obtain ⟨-, faults, rfl⟩ := appended
      rfl
    rw [same, stored] at there
    obtain rfl := Option.some.inj there
    exact terminal

/-- A reflexive and transitive relation that contains every move between idle states contains every
sequence of moves from an idle state. -/
theorem Moves.relates_idle {P : Coordinator → Move → Prop} {a b : Coordinator} (h : Moves P a b)
    (idle : Idle a) {R : Coordinator → Coordinator → Prop} [IsPreorder Coordinator R]
    (move : ∀ c c' m, Idle c → P c m → m.Takes c c' → R c c') : Idle b ∧ R a b := by
  induction h with
  | refl => exact ⟨idle, Std.Refl.refl a⟩
  | step m _ hP takes ih =>
    exact ⟨idle_takes ih.1 takes, IsTrans.trans _ _ _ ih.2 (move _ _ m ih.1 hP takes)⟩

/-- **Invariant rule between idle states.** -/
theorem Moves.invariant_idle {P : Coordinator → Move → Prop} {a b : Coordinator} (h : Moves P a b)
    (idle : Idle a) {I : Coordinator → Prop}
    (keep : ∀ c c' m, Idle c → I c → P c m → m.Takes c c' → I c') (start : I a) : Idle b ∧ I b := by
  induction h with
  | refl => exact ⟨idle, start⟩
  | step m _ hP takes ih => exact ⟨idle_takes ih.1 takes, keep _ _ m ih.1 ih.2 hP takes⟩

/-- What the moves satisfy where the invariant holds, they satisfy. -/
theorem Moves.strengthen_idle {P Q : Coordinator → Move → Prop} {a b : Coordinator}
    (h : Moves P a b) (idle : Idle a) {I : Coordinator → Prop}
    (keep : ∀ c c' m, Idle c → I c → P c m → m.Takes c c' → I c') (start : I a)
    (imp : ∀ c c' m, Idle c → I c → P c m → m.Takes c c' → Q c m) : Moves Q a b := by
  induction h with
  | refl => exact .refl a
  | step m before hP takes ih =>
    obtain ⟨idle', held⟩ := before.invariant_idle idle keep start
    exact .step m ih (imp _ _ m idle' held hP takes) takes

end Coordinator

end Brf
