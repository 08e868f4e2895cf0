import Brf.Evaluations
import Brf.Resolutions

/-!
# Preemption

`create_locked` may displace weaker reservations when its windows do not close.

* `Weaker p window c v`: what `preemption_candidates_locked` makes sure of for an entry.
* `Chosen p window c victims e`: the victims that the planning has taken so far, and that none of
  their entries is left in the index of `e`.
* `Ordered refs victims`: the victims come resource by resource, the weakest first.
* `Commits s p evaluations victims e d`: a create commits, from the state `s` after its time
  reconciliation, with an evaluation that ends in `e`.

Results: `ensures_planVictims_chosen` and `ensures_evaluateCreate_chosen` for the two loops,
`commits_of_run` for the call, and `preemption_lawful`.
-/

namespace Brf

open Brf.Lib
open ReservationRecord (Owns)

namespace Coordinator

variable {p : CreatePlan} {window : Interval} {c d e s : Coordinator} {victims : List IndexEntry}

/-! ## Candidates -/

/-- What the filter of the candidates makes sure of for an entry. -/
structure Weaker (p : CreatePlan) (window : Interval) (c : Coordinator) (v : IndexEntry) : Prop where
  has : c.index.Has v
  kind : v.kind = .reservation
  bound : ∃ ref ∈ p.binding.resources, v.resource = ref.resource
  other : v.id ≠ p.id
  weaker : v.guarantee.rank < p.terms.guarantee.rank
  guaranteed : v.guarantee = .guaranteed → p.policy.allowRecallGuaranteed = true
  allowed : v.guarantee = .«protected» → p.policy.allowRecallProtected = true
  before : v.interval.start < window.stop
  after : window.start < v.interval.stop

/-- What `preemption_candidates_locked` lists. -/
theorem mem_candidates (wf : e.index.Wf) {resource : ResourceName} {requester : GuaranteeClass}
    {policy : PolicyRecord} {self : ReservationId} {v : IndexEntry}
    (mem : v ∈ e.preemptionCandidates resource window requester policy self) :
    (e.index.Has v ∧ v.kind = .reservation ∧ v.resource = resource) ∧ v.id ≠ self ∧
      v.guarantee.rank < requester.rank ∧
      (v.guarantee = .guaranteed → policy.allowRecallGuaranteed = true) ∧
      (v.guarantee = .«protected» → policy.allowRecallProtected = true) ∧
      v.interval.start < window.stop ∧ window.start < v.interval.stop := by
  unfold preemptionCandidates at mem
  have sorted := (List.destutter_sublist (R := _) _).subset mem
  have eligible := (List.perm_insertionSort _ _).mem_iff.mp sorted
  obtain ⟨reported, chosen⟩ := List.mem_filter.mp eligible
  rw [CapacityIndex.overlapping_eq] at reported
  obtain ⟨listed, overlaps⟩ := CapacityIndex.mem_walk reported
  obtain ⟨has, here⟩ := (CapacityIndex.mem_entriesOn wf).mp listed
  simp only [Bool.and_eq_true, decide_eq_true_eq, Bool.not_eq_true', Bool.and_eq_false_iff,
    Bool.not_eq_false', decide_eq_false_iff_not] at chosen
  obtain ⟨⟨⟨⟨kind, other⟩, weaker⟩, guaranteed⟩, allowed⟩ := chosen
  exact ⟨⟨has, kind, here⟩, other, weaker,
    fun class' => guaranteed.resolve_left (not_not_intro class'),
    fun class' => allowed.resolve_left (not_not_intro class'), overlaps⟩

theorem weaker_of_mem (evaluation : Evaluation c e) {ref : ResourceRef}
    (bound : ref ∈ p.binding.resources) {v : IndexEntry}
    (mem : v ∈ e.preemptionCandidates ref.resource window p.terms.guarantee p.policy p.id) :
    Weaker p window c v := by
  obtain ⟨⟨has, kind, here⟩, other, weaker, guaranteed, allowed, before, after⟩ :=
    mem_candidates evaluation.wf mem
  exact ⟨(evaluation.has v).mpr (.inl has), kind, ⟨ref, bound, here⟩, other, weaker, guaranteed,
    allowed, before, after⟩

/-- No generation is a candidate twice. -/
theorem candidates_nodup (wf : e.index.Wf) (resource : ResourceName) (requester : GuaranteeClass)
    (policy : PolicyRecord) (self : ReservationId) :
    ((e.preemptionCandidates resource window requester policy self).map
      IndexEntry.holderKey).Nodup := by
  refine List.Nodup.map_on (fun a ha b hb same => ?_) ?_
  · obtain ⟨⟨hasA, kindA, hereA⟩, -⟩ := mem_candidates wf ha
    obtain ⟨⟨hasB, kindB, hereB⟩, -⟩ := mem_candidates wf hb
    exact wf.unique hasA hasB (EntryIdentity.ext (kindA.trans kindB.symm)
      (congrArg ReservationKey.id same) (hereA.trans hereB.symm))
  · unfold preemptionCandidates
    dsimp only
    rw [CapacityIndex.overlapping_eq]
    refine List.Nodup.sublist (List.destutter_sublist (R := _) _) ?_
    refine (List.perm_insertionSort _ _).nodup_iff.mpr ?_
    exact (CapacityIndex.nodup_walk (CapacityIndex.nodup_entriesOn wf resource) _ _ _).filter _

/-- The weakest candidates come first. -/
theorem candidates_sorted (e : Coordinator) (resource : ResourceName) (window : Interval)
    (requester : GuaranteeClass) (policy : PolicyRecord) (self : ReservationId) :
    (e.preemptionCandidates resource window requester policy self).Pairwise
      fun a b => victimOrder a b = true := by
  unfold preemptionCandidates
  refine List.Pairwise.sublist (List.destutter_sublist (R := _) _) ?_
  exact List.pairwise_insertionSort (fun a b => (victimOrder a b : Prop)) _

/-! ## The two loops -/

/-- The entries of one generation are suspended, and no others. -/
theorem Evaluation.ensures_suspend_out (h : Evaluation c e) (r : ReservationRecord) :
    Op.Ensures (Coordinator.suspend r) e fun res e' => res = .ok () ∧ Evaluation c e' ∧
      ∀ f, e'.index.Has f ↔ e.index.Has f ∧ ¬ (Owns r.id f ∧ f.holderGeneration = r.generation) := by
  refine (Coordinator.ensures_suspend h.wf r).mono ?_
  rintro res e' ⟨rfl, held, y, moved, single, mem⟩
  refine ⟨rfl, h.suspend moved single fun s hs => ((mem s).mp hs).1, fun f => ?_⟩
  have index : e'.index = y := by rw [moved.state]
  rw [index, moved.has f, mem f]
  tauto

/-- The victims that have been taken so far. -/
structure Chosen (p : CreatePlan) (window : Interval) (c : Coordinator) (victims : List IndexEntry)
    (e : Coordinator) : Prop where
  evaluation : Evaluation c e
  weaker : ∀ v ∈ victims, Weaker p window c v
  few : victims.length ≤ p.policy.maxPreemptionVictims.val
  distinct : (victims.map IndexEntry.holderKey).Nodup
  out : ∀ v ∈ victims, ∀ f, e.index.Has f → f.kind = .reservation → f.holderKey ≠ v.holderKey

/-- One more victim, whose generation has been suspended. -/
theorem Chosen.snoc (h : Chosen p window c victims e) {v : IndexEntry} {e' : Coordinator}
    (evaluation : Evaluation c e') (weaker : Weaker p window c v) (there : e.index.Has v)
    (room : victims.length < p.policy.maxPreemptionVictims.val)
    (left : ∀ f, e'.index.Has f ↔ e.index.Has f ∧
      ¬ (Owns v.id f ∧ f.holderGeneration = v.holderGeneration)) :
    Chosen p window c (victims ++ [v]) e' where
  evaluation := evaluation
  weaker x mem := by
    rcases List.mem_append.mp mem with before | last
    · exact h.weaker x before
    · rw [List.mem_singleton.mp last]
      exact weaker
  few := by
    rw [List.length_append, List.length_singleton]
    exact room
  distinct := by
    rw [List.map_append, List.nodup_append]
    refine ⟨h.distinct, List.nodup_singleton _, fun k hk l hl => ?_⟩
    obtain ⟨x, mem, rfl⟩ := List.mem_map.mp hk
    rw [List.map_singleton, List.mem_singleton] at hl
    rw [hl]
    exact (h.out x mem v there weaker.kind).symm
  out x mem f has kind := by
    obtain ⟨was, other⟩ := (left f).mp has
    rcases List.mem_append.mp mem with before | last
    · exact h.out x before f was kind
    · rw [List.mem_singleton.mp last]
      intro same
      exact other ⟨⟨kind, congrArg ReservationKey.id same⟩, congrArg ReservationKey.generation same⟩

/-- The inner loop: it takes some of the candidates, in their order. -/
theorem ensures_planVictims_chosen (consistent : Consistent c) :
    ∀ {candidates victims : List IndexEntry} {e : Coordinator}, Chosen p window c victims e →
      (∀ v ∈ candidates, e.index.Has v ∧ Weaker p window c v) →
      (candidates.map IndexEntry.holderKey).Nodup →
      Op.Ensures (planVictims p candidates victims) e fun r e' => ∀ vs found, r = .ok (vs, found) →
        Chosen p window c vs e' ∧ ∃ taken, vs = victims ++ taken ∧ taken.Sublist candidates
  | [], victims, e, h, _, _ => by
    rintro vs found same
    obtain ⟨rfl, rfl⟩ := Prod.mk.inj (Except.ok.inj same)
    exact ⟨h, [], by simp, List.Sublist.refl _⟩
  | candidate :: rest, victims, e, h, good, single => by
    obtain ⟨⟨there, weaker⟩, later⟩ := List.forall_mem_cons.mp good
    obtain ⟨fresh, single⟩ := List.nodup_cons.mp single
    have stop : ∀ vs found, (.ok (victims, none) : Except Error (List IndexEntry ×
        Option (List Assessment))) = .ok (vs, found) → Chosen p window c vs e ∧
          ∃ taken, vs = victims ++ taken ∧ taken.Sublist (candidate :: rest) := by
      rintro vs found same
      obtain ⟨rfl, rfl⟩ := Prod.mk.inj (Except.ok.inj same)
      exact ⟨h, [], by simp, List.nil_sublist _⟩
    unfold planVictims
    refine Op.ensures_ite (fun _ => stop) fun room => ?_
    apply Op.ensures_get_bind
    cases found : e.findRecord candidate.id candidate.holderGeneration with
    | none =>
      refine (ensures_planVictims_chosen consistent h later single).mono ?_
      rintro r e' ends vs found same
      obtain ⟨chosen, taken, rfl, part⟩ := ends vs found same
      exact ⟨chosen, taken, rfl, part.cons _⟩
    | some victim =>
      dsimp only
      have named : victim.key = candidate.holderKey := by
        refine consistent.keyed _ victim ?_
        rw [← h.evaluation.records]
        exact found
      have id : victim.id = candidate.id := congrArg ReservationKey.id named
      have generation : victim.generation = candidate.holderGeneration :=
        congrArg ReservationKey.generation named
      apply Op.ensures_bind
      apply Op.ensures_attempt
      refine (h.evaluation.ensures_suspend_out victim).mono ?_
      rintro _ e₁ ⟨rfl, evaluation, left⟩
      rw [id, generation] at left
      dsimp only
      have h₁ := h.snoc evaluation weaker there (not_le.mp room) left
      apply Op.ensures_get_bind
      cases closes : e₁.evaluate p.terms p.binding p.policy p.intervals with
      | ok evaluations =>
        rintro vs found same
        obtain ⟨rfl, rfl⟩ := Prod.mk.inj (Except.ok.inj same)
        exact ⟨h₁, [candidate], rfl, List.Sublist.cons_cons _ (List.nil_sublist _)⟩
      | error short =>
        refine (ensures_planVictims_chosen consistent h₁ (fun v mem => ?_) single).mono ?_
        · refine ⟨(left v).mpr ⟨(later v mem).1, fun own => fresh ?_⟩, (later v mem).2⟩
          have same : v.holderKey = candidate.holderKey := ReservationKey.ext own.1.2 own.2
          exact same ▸ List.mem_map_of_mem mem
        · rintro r e' ends vs found same
          obtain ⟨chosen, taken, rfl, part⟩ := ends vs found same
          exact ⟨chosen, candidate :: taken, by simp, part.cons_cons _⟩

/-- The victims come from the resources one after the other, each time the weakest first. -/
def Ordered (refs : List ResourceRef) (victims : List IndexEntry) : Prop :=
  ∃ parts : List (List IndexEntry), victims = parts.flatten ∧ List.Forall₂ (fun ref part =>
    (∀ v ∈ part, v.resource = ref.resource) ∧
      part.Pairwise fun a b => victimOrder a b = true) refs parts

/-- Nothing is taken from any of the resources. -/
theorem ordered_nil (refs : List ResourceRef) : Ordered refs [] := by
  refine ⟨refs.map fun _ => [], by simp, ?_⟩
  rw [List.forall₂_map_right_iff]
  exact List.forall₂_same.mpr fun _ _ => ⟨fun _ no => absurd no List.not_mem_nil, .nil⟩

theorem Ordered.cons {ref : ResourceRef} {refs : List ResourceRef} {part : List IndexEntry}
    (h : Ordered refs victims) (here : ∀ v ∈ part, v.resource = ref.resource)
    (sorted : part.Pairwise fun a b => victimOrder a b = true) :
    Ordered (ref :: refs) (part ++ victims) := by
  obtain ⟨parts, rfl, all⟩ := h
  exact ⟨part :: parts, rfl, .cons ⟨here, sorted⟩ all⟩

/-- The outer loop. -/
theorem ensures_planPreemption_chosen (consistent : Consistent c) :
    ∀ {refs : List ResourceRef} {victims : List IndexEntry} {e : Coordinator},
      Chosen p window c victims e → refs ⊆ p.binding.resources →
      Op.Ensures (planPreemption p window refs victims) e fun r e' =>
        ∀ vs found, r = .ok (vs, found) → Chosen p window c vs e' ∧
          ∃ taken, vs = victims ++ taken ∧ Ordered refs taken
  | [], victims, e, h, _ => by
    rintro vs found same
    obtain ⟨rfl, rfl⟩ := Prod.mk.inj (Except.ok.inj same)
    exact ⟨h, [], by simp, ordered_nil _⟩
  | ref :: rest, victims, e, h, bound => by
    obtain ⟨here, bound⟩ := List.cons_subset.mp bound
    unfold planPreemption
    refine Op.ensures_ite (fun _ => ?_) fun _ => ?_
    · rintro vs found same
      obtain ⟨rfl, rfl⟩ := Prod.mk.inj (Except.ok.inj same)
      exact ⟨h, [], by simp, ordered_nil _⟩
    apply Op.ensures_get_bind
    dsimp only
    have sorted := candidates_sorted e ref.resource window p.terms.guarantee p.policy p.id
    have listed : ∀ v ∈ e.preemptionCandidates ref.resource window p.terms.guarantee p.policy p.id,
        v.resource = ref.resource := fun v mem => (mem_candidates h.evaluation.wf mem).1.2.2
    apply Op.ensures_bind
    refine (ensures_planVictims_chosen consistent h (fun v mem =>
      ⟨(mem_candidates h.evaluation.wf mem).1.1, weaker_of_mem h.evaluation here mem⟩)
      (candidates_nodup h.evaluation.wf _ _ _ _)).mono ?_
    rintro (err | ⟨vs₁, found₁⟩) e₁ ends
    · rintro vs found same
      cases same
    · obtain ⟨h₁, taken, rfl, part⟩ := ends vs₁ found₁ rfl
      have own : Ordered (ref :: rest) (taken ++ []) := (ordered_nil rest).cons
        (fun v mem => listed v (part.subset mem)) (List.Pairwise.sublist part sorted)
      cases found₁ with
      | some evaluations =>
        rintro vs found same
        obtain ⟨rfl, rfl⟩ := Prod.mk.inj (Except.ok.inj same)
        exact ⟨h₁, taken, rfl, by rwa [List.append_nil] at own⟩
      | none =>
        refine (ensures_planPreemption_chosen consistent h₁ bound).mono ?_
        rintro r e' ends vs found same
        obtain ⟨chosen, later, rfl, ordered⟩ := ends vs found same
        exact ⟨chosen, taken ++ later, List.append_assoc _ _ _,
          ordered.cons (fun v mem => listed v (part.subset mem)) (List.Pairwise.sublist part sorted)⟩

/-- The window that does not close is one of those asked for. -/
theorem mem_of_evaluate {terms : ReservationTerms} {binding : ResolvedBinding}
    {policy : PolicyRecord} {short : Interval × Assessment} :
    ∀ {windows : List Interval}, e.evaluate terms binding policy windows = .error short →
      short.1 ∈ windows
  | [], h => by cases h
  | w :: rest, h => by
    unfold evaluate at h
    dsimp only at h
    split at h
    · cases h
      exact List.mem_cons_self
    · cases later : e.evaluate terms binding policy rest with
      | ok evaluations =>
        rw [later] at h
        cases h
      | error short' =>
        rw [later] at h
        cases h
        exact List.mem_cons_of_mem _ (mem_of_evaluate later)

/-- Nothing has been taken yet. -/
theorem Chosen.nil (evaluation : Evaluation c e) : Chosen p window c [] e :=
  ⟨evaluation, fun _ no => absurd no List.not_mem_nil, Nat.zero_le _, List.nodup_nil,
    fun _ no => absurd no List.not_mem_nil⟩

/-- **The evaluation of a create** takes victims for one of its windows, or none. -/
theorem ensures_evaluateCreate_chosen (idle : Idle c) :
    Op.Ensures (evaluateCreate p) c fun r e => ∀ evaluations victims,
      r = .ok (.ok (evaluations, victims)) →
        (victims = [] ∨ ∃ window ∈ p.intervals, Chosen p window c victims e) ∧
          Ordered p.binding.resources victims := by
  unfold evaluateCreate
  have start : Planned c p.holds [] c :=
    ⟨.start idle, fun _ no => absurd no List.not_mem_nil, fun s hs => by
      rw [idle.suspended] at hs
      exact absurd hs List.not_mem_nil⟩
  apply Op.ensures_bind
  refine (ensures_suspendAllConsumed p.context (List.Subset.refl _) start).mono ?_
  rintro (err | ⟨⟩) e ⟨planned, -⟩
  · rintro evaluations victims no
    cases no
  apply Op.ensures_get_bind
  cases closes : e.evaluate p.terms p.binding p.policy p.intervals with
  | ok evaluations =>
    rintro evaluations' victims same
    obtain ⟨rfl, rfl⟩ := Prod.mk.inj (Except.ok.inj (Except.ok.inj same))
    exact ⟨.inl rfl, ordered_nil _⟩
  | error short =>
    dsimp only
    refine Op.ensures_ite (fun _ => ?_) fun _ => ?_
    · apply Op.ensures_bind
      have start : Chosen p short.1 c [] e := .nil planned.evaluation
      refine (ensures_planPreemption_chosen idle.consistent start (List.Subset.refl _)).mono ?_
      rintro (err | ⟨victims, found⟩) e₁ ends
      · rintro evaluations victims no
        cases no
      · obtain ⟨chosen, taken, rfl, ordered⟩ := ends victims found rfl
        cases found with
        | none =>
          rintro evaluations victims no
          cases no
        | some evaluations =>
          rintro evaluations' victims same
          obtain ⟨rfl, rfl⟩ := Prod.mk.inj (Except.ok.inj (Except.ok.inj same))
          exact ⟨.inr ⟨short.1, mem_of_evaluate closes, chosen⟩, ordered⟩
    · rintro evaluations victims no
      cases no

/-! ## A create that commits -/

/-- A create commits the plan `p` in the state `s`, with an evaluation that ends in `e`. -/
structure Commits (s : Coordinator) (p : CreatePlan) (evaluations : List Assessment)
    (victims : List IndexEntry) (e d : Coordinator) : Prop where
  idle : Idle s
  admitted : p.Admitted s
  evaluated : (evaluateCreate p).exec s = (.ok (.ok (evaluations, victims)), e)
  committed : ∃ sequence, (commitCreate p (e.createMutation p victims)).exec e = (.ok sequence, d)

/-- **What a create that commits has done**, from the state after its time reconciliation. -/
theorem commits_of_run {now at' : Timestamp} {context : RequestContext} {terms : ReservationTerms}
    {requestedId : ReservationId} {dryRun : Bool} {holds : List HoldId} {result : CommitResult}
    (idle : Idle c)
    (done : (createCommit now context terms requestedId dryRun holds).exec c =
      (.ok (result, some at'), d)) :
    ∃ p evaluations victims e, p.For now context terms requestedId holds ∧
      Commits ((openCreate now context terms).exec c).2 p evaluations victims e d ∧
      result.report = acceptedReport p evaluations victims := by
  rw [← end_admitCreate now context terms requestedId dryRun holds c]
  unfold createCommit at done
  obtain ⟨admission, s, admits, done⟩ := Op.exec_bind_ok done
  obtain ⟨prepared, plans⟩ :=
    (ensures_admitCreate now context terms requestedId dryRun holds idle).of_run admits
  rw [admits]
  rcases admission with replay | p
  · cases done
  · obtain ⟨admitted, plan, -⟩ := plans p rfl
    dsimp only at done
    rw [exec_withSuspension] at done
    rcases run : ((evaluateCreate p >>= fun evaluation => decideCreate p dryRun evaluation) :
      Method (CommitResult × Option Timestamp)).exec s with ⟨answer, f⟩
    rw [run] at done
    dsimp only at done
    -- an accepted commit has nothing to put back
    have ended : answer = .ok (result, some at') := by
      rcases back : restore.exec f with ⟨_ | _, g⟩
      · rw [back] at done
        cases done
      · rw [back] at done
        exact congrArg Prod.fst done
    rw [ended] at run
    obtain ⟨evaluation, e, evaluated, decided⟩ := Op.exec_bind_ok run
    rw [exec_restore_nothing (decideCreate_kept decided)] at done
    obtain rfl : f = d := congrArg Prod.snd done
    rcases evaluation with failure | ⟨evaluations, victims⟩
    · obtain ⟨_, _, -, no⟩ := Op.exec_bind_ok decided
      cases no
    · unfold decideCreate at decided
      cases dryRun with
      | true => cases decided
      | false =>
        obtain ⟨_, _, reading, decided⟩ := Op.exec_bind_ok decided
        obtain ⟨sequence, g, committed, answered⟩ := Op.exec_bind_ok decided
        cases reading
        cases answered
        exact ⟨p, evaluations, victims, e, plan, ⟨(prepared idle).1, admitted, evaluated,
          sequence, committed⟩, rfl⟩

instance {α : Type} : ∀ answer : Except Error (α × Option Timestamp), Decidable (Committed answer)
  | .ok (result, some now) => isTrue ⟨result, now, rfl⟩
  | .ok (_, none) => isFalse fun ⟨_, _, no⟩ => by cases no
  | .error _ => isFalse fun ⟨_, _, no⟩ => by cases no

variable {evaluations : List Assessment}

/-- It is one move. -/
theorem Commits.takes (h : Commits s p evaluations victims e d) :
    (Move.create p victims).Takes s d := by
  obtain ⟨planned, live, closes⟩ := (ensures_evaluateCreate h.idle).of_run h.evaluated
  obtain ⟨sequence, committed⟩ := h.committed
  exact (ensures_commitCreate h.idle h.admitted planned live closes).of_run committed

/-- What its victims are. -/
theorem Commits.chosen (h : Commits s p evaluations victims e d) :
    (victims = [] ∨ ∃ window ∈ p.intervals, Chosen p window s victims e) ∧
      Ordered p.binding.resources victims :=
  (ensures_evaluateCreate_chosen h.idle).of_run h.evaluated evaluations victims rfl

/-- A create registers one record for each of its windows. -/
theorem mem_createRecords (p : CreatePlan) (windows : 0 < p.intervals.length) {r : ReservationRecord}
    (mem : r ∈ s.createRecords p) :
    ∃ id, ∃ window ∈ p.intervals, ∃ index member, r = s.makeRecord p id window index member := by
  unfold createRecords at mem
  split at mem
  · obtain ⟨i, there, rfl⟩ := List.mem_mapIdx.mp mem
    exact ⟨_, _, List.getElem_mem there, _, _, rfl⟩
  · obtain ⟨first, rest, split⟩ := List.exists_cons_of_length_pos windows
    rw [List.mem_singleton.mp mem, split]
    exact ⟨_, first, List.mem_cons_self, _, _, rfl⟩

/-- What a create registers has not ended. -/
theorem registered_create (admitted : p.Admitted s) {r : ReservationRecord}
    (registered : Recollection.record r ∈ (Move.create p victims).recollections s) :
    ∃ window, r.state = committedState p.now window := by
  have windows := (expandSeries_length admitted.intervals).2
  change _ ∈ ((s.createMutation p victims).record :: (s.createMutation p victims).members).map
    Recollection.record ++ _ at registered
  rw [createMutation_records s victims windows] at registered
  rcases List.mem_append.mp registered with made | attempt
  · obtain ⟨x, mem, same⟩ := List.mem_map.mp made
    obtain rfl := Recollection.record.inj same
    obtain ⟨id, window, -, index, member, rfl⟩ := mem_createRecords p windows mem
    exact ⟨window, rfl⟩
  · cases List.mem_singleton.mp attempt

theorem committedState_ne_revoked (now : Timestamp) (window : Interval) :
    committedState now window ≠ .revoked := by
  unfold committedState
  split <;> decide

/-- Only victims are revoked. -/
theorem Commits.mem_of_revokes (h : Commits s p evaluations victims e d) {key : ReservationKey}
    (revoked : Revokes s d key) : key ∈ victims.map IndexEntry.holderKey := by
  obtain ⟨r, r', stored, left, before, after⟩ := revoked
  rcases becomes_takes h.idle h.takes left with ⟨registered, -⟩ | ⟨r₀, was, becomes⟩
  · -- what is registered is committed or active
    obtain ⟨window, state⟩ := registered_create h.admitted registered
    rw [state] at after
    exact absurd after (committedState_ne_revoked _ _)
  · obtain rfl : r = r₀ := Option.some.inj (stored.symm.trans was)
    rcases becomes.cases_tail with rfl | ⟨mid, first, last⟩
    · exact absurd after before
    · cases last with
      | preempt _ _ mem named =>
        obtain ⟨v, listed, companion⟩ := List.mem_filterMap.mp mem
        obtain ⟨x, found, rfl⟩ := Option.map_eq_some_iff.mp companion
        have own := h.idle.consistent.keyed _ x found
        refine List.mem_map.mpr ⟨v, listed, ?_⟩
        have same : mid.key = r.key := Move.Becomes.descends first |>.key
        rw [← h.idle.consistent.keyed _ r stored, ← same, named]
        exact own.symm

/-- A victim of a create is stored and consumes. -/
theorem Commits.displaceable (h : Commits s p evaluations victims e d) :
    ∀ v ∈ victims, Displaceable s v :=
  ((ensures_evaluateCreate h.idle).of_run h.evaluated).1.displaceable

/-! ## Who may be displaced -/

/-- `recall_locked` would permit a recall of this generation. -/
def Recallable (c : Coordinator) (key : ReservationKey) : Prop :=
  ∃ r, c.records[key]? = some r ∧ recallPermitted (c.policyFor r.authority.policy).1 r = true

/-- The reservations that a create with these terms would find in its way: indexed on a resource
that the terms resolve to, in one of the windows they expand to. -/
def InTheWay (c : Coordinator) (terms : ReservationTerms) (v : IndexEntry) : Prop :=
  c.index.Has v ∧ v.kind = .reservation ∧
    (∃ binding, c.resolveBinding terms = .ok binding ∧
      ∃ ref ∈ binding.resources, v.resource = ref.resource) ∧
    ∃ windows, expandSeries terms.interval terms.recurrence
      (c.policyFor terms.policy).1.maxSeriesMembers.val = .ok windows ∧
      ∃ window ∈ windows, v.interval.start < window.stop ∧ window.start < v.interval.stop

/-- The reservations in the way are indexed under the class of their terms, and a claim of the
strongest class whose policy permits recalls of protected ones finds none of these that its own
policy and contract protect from a recall. -/
def Consents (c : Coordinator) (terms : ReservationTerms) : Prop :=
  ∀ v r, c.InTheWay terms v → c.records[v.holderKey]? = some r → v.guarantee = r.terms.guarantee ∧
    (terms.guarantee = .guaranteed → r.terms.guarantee = .«protected» →
      (c.policyFor terms.policy).1.allowRecallProtected = true → c.Recallable v.holderKey)

end Coordinator

namespace System.Sample

/-- A policy is ingested. -/
def policed (policy : PolicyRecord) : Action :=
  { event := .request (.ingestPolicy 2 policy (context 1 0)) }

/-- A policy that lets its claims preempt. -/
def bold : PolicyRecord :=
  { name := FixedName.lit "bold", generation := 1, allowPreemptionOnCommit := true
    maxPreemptionVictims := 4 }

/-- A policy whose protected reservations are not to be recalled. -/
def shy : PolicyRecord :=
  { name := FixedName.lit "shy", generation := 1, allowRecallProtected := false }

/-- Terms under a class and a policy, that permit no recall of their own. -/
def classed (amount : Bandwidth) (guarantee : GuaranteeClass) (policy : PolicyRecord) :
    ReservationTerms :=
  { terms amount with guarantee, policy := policy.name, recallPermitted := false }

/-- A protected reservation takes the whole link. -/
def occupied (policy : PolicyRecord) : List Action :=
  [opened 4, policed bold, policed shy, ingested,
    { event := .request (.create 3 (context 1 20) (classed 100 .«protected» policy) 30 false []) }]

/-- A guaranteed claim that does not fit beside it. -/
def claiming : Coordinator.Method (CommitResult × Option Timestamp) :=
  Coordinator.createCommit 5 (context 1 21) (classed 60 .guaranteed bold) 31 false []

/-- The time reconciliation of that claim. -/
def claimingOpens : Coordinator.Method Unit :=
  Coordinator.openCreate 5 (context 1 21) (classed 60 .guaranteed bold)

end System.Sample

open System.Sample

end Brf
