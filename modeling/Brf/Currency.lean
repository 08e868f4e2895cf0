import Brf.Ingestion

/-!
# Current means current

`refresh_applicability_locked` looks at every live record: evidence that is out of date is revalidated
where the policy permits it, and marked otherwise.

* `Coordinator.InForce c r`: everything the authority of a record binds is in force, at the bound
  generation.
* `Coordinator.Justified c r`: a live record that is marked `current` has its evidence in force.
* `Coordinator.turnSettles c key`: the turn of the loop for `key` ends in one of the two ways the
  source counts on: the successor of a revalidation binds failure domains in force, and a record that
  is marked `current` is not left because its revalidation does not commit.
* `System.Refreshed s`: a refresh has been completed, and since then nothing has changed the ledger or
  the path table, or bound a failure domain the ledger does not agree on.

Results: `allJustified_refresh`, `current_is_current`, and `unrevalidated_stays_current`, where the
revalidation a policy permits does not commit.
-/

namespace Brf

open Brf.Lib

/-- The resources in force agree on the generation of every failure domain. -/
def CapacityLedger.Agrees (ledger : CapacityLedger) : Prop :=
  ∀ n m domain g g', domain.empty = false → ledger.declared n domain = some g →
    ledger.declared m domain = some g' → g = g'

theorem CapacityLedger.Agrees.leads {ledger : CapacityLedger} (h : ledger.Agrees)
    (bound : List ResourceRef) : ledger.Leads bound :=
  fun r _ domain g named said n g' first _ => h n r.resource domain g' g named first said

namespace Coordinator

variable {c c' : Coordinator}

/-! ## Evidence -/

/-- The resource of a reference is in force at its generation. -/
def ResourceInForce (c : Coordinator) (ref : ResourceRef) : Prop :=
  ∃ e, c.ledger[ref.resource]? = some e ∧ e.withdrawn = false ∧
    e.capacity.generation = ref.generation

/-- The path is in force at the generation. -/
def PathInForce (c : Coordinator) (path : PathName) (generation : PathAuthorityGeneration) : Prop :=
  ∃ e, c.paths[path]? = some e ∧ e.retired = false ∧ e.path.generation = generation

/-- The evidence of a record is in force. A path generation of zero means that no path is bound. -/
structure InForce (c : Coordinator) (r : ReservationRecord) : Prop where
  resources : ∀ ref ∈ r.authority.resources, c.ResourceInForce ref
  path : r.authority.pathGeneration.val ≠ 0 →
    c.PathInForce r.terms.path r.authority.pathGeneration
  domains : ∀ ref ∈ r.authority.failureDomains, c.ledger.isCurrentFailureDomain ref = true

theorem resourceProblem_eq_none {ref : ResourceRef} :
    c.resourceProblem ref = none ↔ c.ResourceInForce ref := by
  unfold resourceProblem ResourceInForce
  cases found : c.ledger[ref.resource]? with
  | none => simp
  | some e => by_cases active : e.withdrawn = true <;> simp [Option.filter, active]

theorem pathProblem_eq_none {r : ReservationRecord} : c.pathProblem r = none ↔
    (r.authority.pathGeneration.val ≠ 0 →
      c.PathInForce r.terms.path r.authority.pathGeneration) := by
  unfold pathProblem PathInForce
  by_cases unbound : r.authority.pathGeneration.val = 0
  · simp [unbound]
  · rw [if_neg unbound]
    cases found : c.paths[r.terms.path]? with
    | none => simp [unbound]
    | some e => by_cases retired : e.retired = true <;> simp [Option.filter, retired, unbound]

/-- **The refresh finds no problem** exactly if the evidence is in force. -/
theorem evidenceProblem_eq_none {r : ReservationRecord} :
    c.evidenceProblem r = none ↔ c.InForce r := by
  unfold evidenceProblem domainProblem
  rw [Option.or_eq_none_iff, Option.or_eq_none_iff, List.findSome?_eq_none_iff, pathProblem_eq_none]
  simp only [resourceProblem_eq_none, ite_eq_left_iff, reduceCtorEq, imp_false, not_not,
    List.all_eq_true]
  exact ⟨fun ⟨resources, path, domains⟩ => ⟨resources, path, domains⟩,
    fun h => ⟨h.resources, h.path, h.domains⟩⟩

/-- Only the tables and what never changes of a record matter. -/
theorem InForce.congr {r r' : ReservationRecord} (h : c.InForce r) (ledger : c'.ledger = c.ledger)
    (paths : c'.paths = c.paths) (descends : Descends r r') : c'.InForce r' where
  resources := by
    rw [descends.authority]
    unfold ResourceInForce
    rw [ledger]
    exact h.resources
  path := by
    rw [descends.authority, descends.terms]
    unfold PathInForce
    rw [paths]
    exact h.path
  domains := by
    rw [descends.authority, ledger]
    exact h.domains

section

variable {terms : ReservationTerms} {b : ResolvedBinding}

theorem mem_bind_resources {binding : ResolvedBinding} {name : ResourceName} {e : CapacityEntry}
    (there : c.ledger[name]? = some e) (active : e.withdrawn = false)
    (h : ∀ ref ∈ binding.resources, c.ResourceInForce ref) :
    ∀ ref ∈ (ResolvedBinding.bind binding name e.capacity).resources, c.ResourceInForce ref := by
  intro ref mem
  rcases List.mem_append.mp mem with before | own
  · exact h ref before
  · rw [List.mem_singleton.mp own]
    exact ⟨e, there, active, rfl⟩

theorem bindResources_inForce : ∀ {names : List ResourceName} {binding b : ResolvedBinding},
    c.bindResources names binding = .ok b → (∀ ref ∈ binding.resources, c.ResourceInForce ref) →
      ∀ ref ∈ b.resources, c.ResourceInForce ref
  | [], binding, b, ok, h => by
    obtain rfl := Except.ok.inj ok
    exact h
  | name :: rest, binding, b, ok, h => by
    unfold bindResources at ok
    split at ok
    · cases ok
    · rename_i e there
      split at ok
      · cases ok
      · rename_i active
        exact bindResources_inForce ok (mem_bind_resources there (by simpa using active) h)

theorem bindComponents_inForce : ∀ {names : List ResourceName} {binding b : ResolvedBinding},
    c.bindComponents names binding = .ok b → (∀ ref ∈ binding.resources, c.ResourceInForce ref) →
      ∀ ref ∈ b.resources, c.ResourceInForce ref
  | [], binding, b, ok, h => by
    obtain rfl := Except.ok.inj ok
    exact h
  | name :: rest, binding, b, ok, h => by
    unfold bindComponents at ok
    split at ok
    · cases ok
    · rename_i e found
      obtain ⟨there, active⟩ := Option.filter_eq_some_iff.mp found
      exact bindComponents_inForce ok (mem_bind_resources there (by simpa using active) h)

/-- **A resolved binding** is in force, its failure domains apart. -/
theorem resolveBinding_inForce (ok : c.resolveBinding terms = .ok b) :
    (∀ ref ∈ b.resources, c.ResourceInForce ref) ∧
      (b.pathGeneration.val ≠ 0 → c.PathInForce terms.path b.pathGeneration) := by
  have canonical : ∀ {binding : ResolvedBinding}, (do
        let resources ← canonicalizeResources binding.resources
        let failureDomains ← canonicalizeFailureDomains binding.failureDomains
        pure { binding with resources, failureDomains } : Result ResolvedBinding) = .ok b →
      (∀ ref ∈ binding.resources, c.ResourceInForce ref) →
      b.pathGeneration = binding.pathGeneration ∧ ∀ ref ∈ b.resources, c.ResourceInForce ref := by
    intro binding ok h
    obtain ⟨resources, named, ok⟩ := Result.bind_eq_ok.mp ok
    obtain ⟨domains, -, ok⟩ := Result.bind_eq_ok.mp ok
    obtain rfl := Except.ok.inj ok
    exact ⟨rfl, fun ref mem => h ref ((mem_canonicalizeResources named ref).mp mem)⟩
  have nothing : ∀ ref ∈ ([] : List ResourceRef), c.ResourceInForce ref :=
    fun _ no => absurd no List.not_mem_nil
  unfold resolveBinding at ok
  cases kind : terms.bindingKind with
  | resources =>
    rw [kind] at ok
    obtain ⟨binding, bound, ok⟩ := Result.bind_eq_ok.mp ok
    obtain ⟨generation, inForce⟩ := canonical ok (bindResources_inForce bound nothing)
    refine ⟨inForce, fun named => absurd ?_ named⟩
    rw [generation, (bindResources_names bound).2]
    rfl
  | path =>
    rw [kind] at ok
    obtain ⟨binding, bound, ok⟩ := Result.bind_eq_ok.mp ok
    obtain ⟨entry, there, active, components⟩ := bindPath_ok bound
    obtain ⟨generation, inForce⟩ := canonical ok (bindComponents_inForce components nothing)
    refine ⟨inForce, fun _ => ⟨entry, there, active, ?_⟩⟩
    rw [generation, (bindComponents_names components).2]

end

/-! ## Records that are marked current -/

/-- A live record that is marked `current` has its evidence in force. -/
def Justified (c : Coordinator) (r : ReservationRecord) : Prop :=
  isTerminal r.state = false → r.applicability = .current → c.InForce r

/-- What is stored under a key, if anything, is justified. -/
def JustifiedAt (c : Coordinator) (key : ReservationKey) : Prop :=
  ∀ r, c.records[key]? = some r → c.Justified r

/-- **Current means current.** -/
def AllJustified (c : Coordinator) : Prop := ∀ key, c.JustifiedAt key

theorem AllJustified.congr (h : c.AllJustified) (records : c'.records = c.records)
    (ledger : c'.ledger = c.ledger) (paths : c'.paths = c.paths) : c'.AllJustified := by
  intro key r there live current
  exact (h key r (records ▸ there) live current).congr ledger paths (.refl r)

theorem transitioned_applicability (c : Coordinator) (r : ReservationRecord)
    (target : ReservationState) (now : Timestamp) (reason : Text) (context : RequestContext)
    (effect : Timestamp) (sequence : DurableSequence) :
    (c.transitioned r target now reason context effect sequence).applicability =
      r.applicability := by
  unfold transitioned
  split <;> rfl

/-- A turn of a move keeps a record justified. -/
theorem Justified.turn {m : Move} (takes : m.Takes c c') {r r' : ReservationRecord}
    (turn : m.Rewrites c r r') (h : c.Justified r) : c.Justified r' := by
  intro live current
  have descends := turn.descends
  have kept : isTerminal r.state = false → r.applicability = .current → c.InForce r' :=
    fun live current => (h live current).congr rfl rfl descends
  cases turn with
  | transition _ target now reason context retained sequence => exact kept takes.2.1 current
  | pendRecall _ now reason context effect grace sequence =>
    have consumes := takes.2.1
    have alive : isTerminal r.state = false := by
      by_contra terminal
      rw [terminal_not_consumes (by simpa using terminal)] at consumes
      cases consumes
    rw [ReservationRecord.graced, transitioned_applicability] at current
    exact kept alive current
  | mark _ applicability reason now sequence =>
    have evidence := takes.2.2.1 current
    exact (evidenceProblem_eq_none.mp evidence).congr rfl rfl descends
  | preempt p victims mem own =>
    obtain ⟨v, -, companion⟩ := List.mem_filterMap.mp mem
    obtain ⟨r', -, rfl⟩ := Option.map_eq_some_iff.mp companion
    cases live
  | supersede p superseded successors mutation provenance mem own => cases live
  | revalidate _ binding now context provenance => cases live

theorem Justified.becomes {m : Move} (takes : m.Takes c c') {r r' : ReservationRecord}
    (becomes : m.Becomes c r r') (h : c.Justified r) : c.Justified r' := by
  induction becomes with
  | refl => exact h
  | tail _ turn ih => exact ih.turn takes turn

/-- A record that a commit registers is justified, if its failure domains are in force. -/
theorem committed_justified (idle : Idle c) {m : Move} (takes : m.Takes c c')
    {r : ReservationRecord} (registered : .record r ∈ m.recollections c)
    (domains : c.ledger.Leads r.authority.resources) : c.InForce r := by
  obtain ⟨terms, b, resolved, resources, failureDomains, generation, path⟩ :=
    committed_binding idle takes registered
  obtain ⟨inForce, bound⟩ := resolveBinding_inForce resolved
  have current := (committed_domains idle takes registered).mpr domains
  rw [committed_ledger idle takes registered] at current
  refine ⟨resources ▸ inForce, ?_, current⟩
  rw [generation, path]
  exact bound

/-- **A move** that leaves the tables alone keeps current current, if the commits it makes bind
failure domains in force. -/
theorem justified_takes (idle : Idle c) {m : Move} (takes : m.Takes c c')
    (ledger : c'.ledger = c.ledger) (paths : c'.paths = c.paths)
    (leads : ∀ r, .record r ∈ m.recollections c → c.ledger.Leads r.authority.resources)
    (h : c.AllJustified) : c'.AllJustified := by
  intro key r there live current
  have before : c.Justified r := by
    rcases becomes_takes idle takes there with ⟨registered, -⟩ | ⟨s, stored, becomes⟩
    · exact fun _ _ => committed_justified idle takes registered (leads r registered)
    · exact (h key s stored).becomes takes becomes
  exact (before live current).congr ledger paths (.refl r)

/-- The moves that neither change the tables nor bind anything. -/
def Unbinding : Move → Prop
  | .capacity .. | .ledger _ | .paths .. | .pathTable _ | .create .. | .amend .. | .revalidate .. =>
    False
  | _ => True

/-- The moves that do not change the tables. -/
def Untabled : Move → Prop
  | .capacity .. | .ledger _ | .paths .. | .pathTable _ => False
  | _ => True


theorem Unbinding.untabled {m : Move} (h : Unbinding m) : Untabled m := by
  cases m <;> first | exact h | trivial

theorem Unbinding.unregistered {m : Move} (h : Unbinding m) (r : ReservationRecord) :
    .record r ∉ m.recollections c := by
  intro registered
  rcases record_recollections registered with ⟨p, victims, rfl, -⟩ |
    ⟨p, superseded, successors, mutation, rfl, -⟩ | ⟨r', binding, now, context, rfl, -⟩
  · exact h
  · exact h
  · exact h

theorem Untabled.tables (idle : Idle c) {m : Move} (h : Untabled m) (takes : m.Takes c c') :
    c'.ledger = c.ledger ∧ c'.paths = c.paths := by
  have tables := tables_takes idle takes
  cases m <;> first | exact h.elim | exact ⟨tables.ledger, tables.paths⟩

theorem Runs.untabled {P : Move → Prop} (idle : Idle c) (untabled : ∀ m, P m → Untabled m)
    (h : Runs P c c') : c'.ledger = c.ledger ∧ c'.paths = c.paths := by
  have both := (h idle).2.invariant_idle idle
    (I := fun e => e.ledger = c.ledger ∧ e.paths = c.paths) ?_ ⟨rfl, rfl⟩
  · exact both.2
  · rintro e e' m eIdle ⟨ledger, paths⟩ own takes
    obtain ⟨ledger', paths'⟩ := (untabled m own).tables eIdle takes
    exact ⟨ledger'.trans ledger, paths'.trans paths⟩

/-- **Moves** that leave the tables alone keep current current, if they bind nothing or the ledger
agrees on the failure domains. -/
theorem Runs.justified {P : Move → Prop} (idle : Idle c) (untabled : ∀ m, P m → Untabled m)
    (binds : (∀ m, P m → Unbinding m) ∨ c.ledger.Agrees) (h : Runs P c c')
    (justified : c.AllJustified) : c'.AllJustified := by
  have both := (h idle).2.invariant_idle idle
    (I := fun e => e.ledger = c.ledger ∧ e.AllJustified) ?_ ⟨rfl, justified⟩
  · exact both.2.2
  · rintro e e' m eIdle ⟨same, justified⟩ own takes
    obtain ⟨ledger, paths⟩ := (untabled m own).tables eIdle takes
    refine ⟨ledger.trans same, justified_takes eIdle takes ledger paths (fun r registered => ?_)
      justified⟩
    rcases binds with unbinding | agrees
    · exact absurd registered ((unbinding m own).unregistered r)
    · rw [same]
      exact agrees.leads _

/-! ## The refresh loop -/

/-- A turn of the refresh loop does not leave a record `current` on evidence that is out of date: if
it tries to revalidate a record that is marked `current`, the revalidation commits, and the failure
domains a successor binds are in force. -/
def turnSettles (c : Coordinator) (key : ReservationKey) : Bool :=
  match c.records[key]? with
  | none => true
  | some r =>
    (c.evidenceProblem r).isNone ||
      !(c.policyFor r.authority.policy).1.autoRevalidateOnGenerationChange ||
      match c.revalidates r with
      | none => r.applicability ≠ .current
      | some binding => binding.failureDomains.all c.ledger.isCurrentFailureDomain

/-- The turns settle one after the other. -/
def turnsSettle (now : Timestamp) : List ReservationKey → Coordinator → Bool
  | [], _ => true
  | key :: keys, c =>
    c.turnSettles key && turnsSettle now keys ((refreshTurn now true key).exec c).2

/-- The turns of a refresh settle. -/
def refreshSettles (c : Coordinator) (now : Timestamp) : Bool := turnsSettle now c.liveKeys c

/-- A revalidation is tried on the turn of a record that settles. -/
theorem turnSettles_revalidation {key : ReservationKey} (settles : c.turnSettles key = true)
    {r : ReservationRecord} (stored : c.records[key]? = some r)
    (problem : c.evidenceProblem r ≠ none)
    (policy : (c.policyFor r.authority.policy).1.autoRevalidateOnGenerationChange = true) :
    (match c.revalidates r with
      | none => decide (r.applicability ≠ .current)
      | some binding => binding.failureDomains.all c.ledger.isCurrentFailureDomain) = true := by
  unfold turnSettles at settles
  rw [stored] at settles
  dsimp only at settles
  obtain ⟨reason, lost⟩ := Option.ne_none_iff_exists'.mp problem
  rw [lost, policy] at settles
  simpa using settles

theorem revalidates_resolves {r : ReservationRecord} {binding : ResolvedBinding}
    (commits : c.revalidates r = some binding) : c.resolveBinding r.terms = .ok binding := by
  unfold revalidates at commits
  cases resolved : c.resolveBinding r.terms with
  | error e =>
    rw [resolved] at commits
    cases commits
  | ok b =>
    rw [resolved] at commits
    dsimp only at commits
    split at commits
    · rw [Option.some.inj commits]
    · cases commits

/-- A mark leaves what is stored under the key of the record in the state it was. -/
theorem Remarked.at {r : ReservationRecord} {applicability : Applicability}
    (h : Remarked r applicability c c') (stored : c.records[r.key]? = some r) :
    ∃ s, c'.records[r.key]? = some s ∧ Descends r s ∧ s.state = r.state ∧
      s.applicability = applicability := by
  rcases h with ⟨same, already⟩ | ⟨reason, now, sequence, records⟩
  · exact ⟨r, same ▸ stored, .refl r, rfl, already⟩
  · refine ⟨r.marked applicability reason now sequence, ?_, ⟨rfl, rfl, rfl⟩, rfl, rfl⟩
    rw [records, Map.get_insert, if_pos rfl]

/-- **A turn that settles** justifies what is stored under its key, and keeps the rest justified. -/
theorem Turned.justified (idle : Idle c) {key : ReservationKey} (turned : Turned true key c c')
    (ledger : c'.ledger = c.ledger) (paths : c'.paths = c.paths)
    (settles : c.turnSettles key = true) {k : ReservationKey} (h : k = key ∨ c.JustifiedAt k) :
    c'.JustifiedAt k := by
  intro s there live current
  by_cases other : k = key
  · subst other
    cases turned with
    | absent gone records =>
      rw [records, gone] at there
      cases there
    | current r stored sound remarked =>
      obtain rfl := idle.consistent.keyed k r stored
      obtain ⟨s', own, descends, -, -⟩ := remarked.at stored
      obtain rfl := Option.some.inj (own.symm.trans there)
      exact (evidenceProblem_eq_none.mp sound).congr ledger paths descends
    | outdated r stored problem remarked =>
      obtain rfl := idle.consistent.keyed k r stored
      obtain ⟨s', own, -, -, marked⟩ := remarked.at stored
      obtain rfl := Option.some.inj (own.symm.trans there)
      rw [marked] at current
      cases current
    | left r stored problem auto policy fails marked records =>
      have settled := turnSettles_revalidation settles stored problem policy
      rw [fails] at settled
      exact absurd marked (of_decide_eq_true settled)
    | succeeded r stored problem auto policy binding commits d successor rest =>
      obtain rfl := idle.consistent.keyed k r stored
      obtain ⟨now, context, provenance, records⟩ := successor
      have superseded : d.records[r.key]? = some (revalidatedForm r now provenance) := by
        rw [records, Map.get_insert_ne (revalidatedSuccessor_key c r binding now context).symm,
          Map.get_insert, if_pos rfl]
      rcases rest with same | ⟨t, before, remarked⟩
      · rw [same, superseded] at there
        rw [← Option.some.inj there] at live
        cases live
      · obtain rfl := Option.some.inj (superseded.symm.trans before)
        obtain ⟨s', own, -, state, -⟩ := remarked.at superseded
        obtain rfl := Option.some.inj (own.symm.trans there)
        rw [state] at live
        cases live
  · rcases turned.elsewhere idle.consistent.keyed other with
      same | ⟨r, binding, now, context, stored, problem, policy, commits, successor⟩
    · rw [same] at there
      exact (h.resolve_left other s there live current).congr ledger paths (.refl s)
    · obtain rfl := Option.some.inj (successor.symm.trans there)
      have settled := turnSettles_revalidation settles stored problem policy
      rw [commits] at settled
      obtain ⟨inForce, path⟩ := resolveBinding_inForce (revalidates_resolves commits)
      have own : c.InForce (c.revalidatedSuccessor r binding now context) :=
        ⟨inForce, path, List.all_eq_true.mp settled⟩
      exact own.congr ledger paths (.refl _)

theorem Housekeeping.untabled {m : Move} (h : Housekeeping m) : Untabled m := by
  cases m <;> trivial

/-- **The loop**, if its turns settle. -/
theorem justified_refreshTurns (now : Timestamp) : ∀ {keys : List ReservationKey} {c : Coordinator},
    Idle c → keys.Nodup → (∀ k ∈ keys, LiveAt c k) → turnsSettle now keys c = true →
      Op.Ensures (Op.each (refreshTurn now true) keys) c fun result c' => result.toBool = true →
        ∀ k, k ∈ keys ∨ c.JustifiedAt k → c'.JustifiedAt k
  | [], c, _, _, _, _ => fun _ k h => h.resolve_left List.not_mem_nil
  | key :: keys, c, idle, distinct, live, settle => by
    obtain ⟨fresh, distinct⟩ := List.nodup_cons.mp distinct
    obtain ⟨settles, rest⟩ := Bool.and_eq_true_iff.mp settle
    apply Op.ensures_bind
    rcases turn : (refreshTurn now true key).exec c with ⟨result, c₁⟩
    refine .of_exec turn ?_
    obtain ⟨runs, turned⟩ := (runs_refreshTurn (P := Housekeeping) now true
      (fun _ made => made.housekeeping) (live key List.mem_cons_self)).of_run turn
    cases result with
    | error e => exact fun no => nomatch no
    | ok =>
      have turned := turned idle rfl
      obtain ⟨ledger, paths⟩ := Runs.untabled idle (fun _ => Housekeeping.untabled) runs
      rw [turn] at rest
      refine (justified_refreshTurns now (runs idle).1 distinct (fun k mem => ?_) rest).mono ?_
      · exact turned.liveAt idle.consistent.keyed (fun same => fresh (same ▸ mem))
          (live k (List.mem_cons_of_mem _ mem))
      · intro result c' later done k h
        refine later done k ?_
        rcases h with mem | before
        · exact (List.mem_cons.mp mem).symm.imp_right fun same =>
            turned.justified idle ledger paths settles (.inl same)
        · exact .inr (turned.justified idle ledger paths settles (.inr before))

/-- **A refresh** whose turns settle leaves no record `current` on evidence that is out of date. -/
theorem allJustified_refresh (idle : Idle c) {now : Timestamp}
    (settles : c.refreshSettles now = true) :
    Op.Ensures (refreshApplicability now true) c fun result c' => result.toBool = true →
      c'.AllJustified := by
  unfold refreshApplicability
  apply Op.ensures_get_bind
  refine (justified_refreshTurns now idle (nodup_liveKeys c) (fun _ => liveAt_liveKeys)
    settles).mono fun result c' turned done key => turned done key ?_
  by_cases listed : key ∈ c.liveKeys
  · exact .inl listed
  · exact .inr fun r stored live _ => absurd (mem_liveKeys.mpr ⟨r, stored, live⟩) listed

/-- A refresh whose turns settle, and moves that bind nothing. -/
theorem justified_refreshed (idle : Idle c) {now : Timestamp} (settles : c.refreshSettles now = true)
    {rest : Method Unit} (within : Op.Within (Runs Unbinding) rest)
    (run : (refreshApplicability now true >>= fun _ => rest).exec c = (.ok (), c')) :
    c'.AllJustified := by
  obtain ⟨⟨⟩, d, refreshed, rested⟩ := Op.exec_bind_ok run
  have justified := (allJustified_refresh idle settles).of_run refreshed rfl
  have dIdle := ((within_refreshApplicability (P := Housekeeping) (fun _ h => h) now true c).of_run
    refreshed idle).1
  exact ((within d).of_run rested).justified dIdle (fun _ => Unbinding.untabled)
    (.inl fun _ own => own) justified

end Coordinator

/-! ## Requests that refresh -/

namespace Request

open Coordinator

/-- The requests that refresh: the ingestions of capacity and paths, and `reconcile_lifecycle`. -/
def refreshes : Request → Bool
  | .ingestCapacity .. | .ingestPaths .. | .reconcileLifecycle .. => true
  | _ => false

/-- `reconcile_lifecycle` up to the refresh. -/
def reconcileIn (now : Timestamp) (context : RequestContext) : Method (Option Unit) := do
  Op.lift ((← get).validateContext context false)
  reconcile now
  pure (some ())

/-- What a request does before it refreshes: whether it then does. -/
def leadIn : Request → Method Bool
  | .ingestCapacity now snapshot withdrawals context => do
    pure (← declareCapacity now snapshot withdrawals context).isSome
  | .ingestPaths now snapshot context => do
    pure (← declarePaths now snapshot context).isSome
  | .reconcileLifecycle now context => do pure (← reconcileIn now context).isSome
  | _ => pure false

/-- The clock of a refresh. -/
def refreshClock : Request → Timestamp
  | .ingestCapacity now .. | .ingestPaths now .. | .reconcileLifecycle now _ => now
  | _ => 0

variable {c e : Coordinator} {request : Request}

/-- A request that refreshes in two parts: what `first` does, and then the refresh and `rest` if it
has declared something. -/
theorem exec_refreshing {α : Type} {perform : Method Unit} {first : Method (Option α)}
    {now : Timestamp} {rest : α → Method Unit} {settle : Option α → Method Unit}
    (parts : perform = first >>= settle) (nothing : settle none = pure ())
    (something : ∀ a, settle (some a) = refreshApplicability now true >>= fun _ => rest a)
    {r : Except Error Bool} (run : (do pure (← first).isSome : Method Bool).exec c = (r, e)) :
    (∀ err, r = .error err → perform.exec c = (.error err, e)) ∧
      (r = .ok false → perform.exec c = (.ok (), e)) ∧
      (r = .ok true → ∃ a, perform.exec c =
        (refreshApplicability now true >>= fun _ => rest a).exec e) := by
  rw [Op.exec_bind] at run
  rw [parts, Op.exec_bind]
  rcases lead : first.exec c with ⟨err | _ | a, d⟩
  · rw [lead] at run
    obtain ⟨rfl, rfl⟩ := Prod.mk.inj run
    exact ⟨fun _ same => by rw [Except.error.inj same], fun no => (nomatch no),
      fun no => (nomatch no)⟩
  · rw [lead] at run
    obtain ⟨rfl, rfl⟩ := Prod.mk.inj run
    dsimp only
    rw [nothing]
    exact ⟨fun _ no => (nomatch no), fun _ => rfl, fun no => (nomatch no)⟩
  · rw [lead] at run
    obtain ⟨rfl, rfl⟩ := Prod.mk.inj run
    dsimp only
    rw [something]
    exact ⟨fun _ no => (nomatch no), fun no => (nomatch no), fun _ => ⟨a, rfl⟩⟩

/-- **A request that refreshes** is its lead-in, then the refresh, then moves that bind nothing. -/
theorem perform_leadIn (refreshes : request.refreshes = true) {r : Except Error Bool}
    (run : request.leadIn.exec c = (r, e)) :
    (∀ err, r = .error err → request.perform.exec c = (.error err, e)) ∧
      (r = .ok false → request.perform.exec c = (.ok (), e)) ∧
      (r = .ok true → ∃ rest : Method Unit, Op.Within (Runs Unbinding) rest ∧
        request.perform.exec c =
          (refreshApplicability request.refreshClock true >>= fun _ => rest).exec e) := by
  have clocked : ∀ m, Clocked m → Unbinding m := fun m h => by cases m <;> trivial
  have settling : ∀ m, Settling m → Unbinding m := fun m h => by cases m <;> trivial
  cases request with
  | ingestCapacity now snapshot withdrawals context =>
    obtain ⟨failed, silent, refreshed⟩ := exec_refreshing
      (Coordinator.ingestCapacity_eq now snapshot withdrawals context) rfl (fun _ => rfl) run
    refine ⟨failed, silent, fun ok => ?_⟩
    obtain ⟨named, whole⟩ := refreshed ok
    refine ⟨_, ?_, whole⟩
    have detects := fun name =>
      within_detectOvercommit (P := Unbinding) trivial (fun _ => trivial) name now
    refine Op.within_bind (within_fenceHolds clocked now _ _) fun _ => ?_
    refine Op.within_bind (Op.within_each detects _) fun _ => ?_
    refine Op.within_bind (Op.within_each detects _) fun _ => ?_
    exact within_releaseTerminalHistory settling now
  | ingestPaths now snapshot context =>
    obtain ⟨failed, silent, refreshed⟩ := exec_refreshing
      (Coordinator.ingestPaths_eq now snapshot context) rfl (fun _ => rfl) run
    refine ⟨failed, silent, fun ok => ?_⟩
    obtain ⟨changed, whole⟩ := refreshed ok
    exact ⟨_, within_fenceHolds clocked now _ _, whole⟩
  | reconcileLifecycle now context =>
    have parts : (Request.reconcileLifecycle now context).perform =
        reconcileIn now context >>= fun
          | none => pure ()
          | some _ => refreshApplicability now true >>= fun _ => settle now := by
      unfold perform reconcileIn Coordinator.reconcileLifecycle
      simp only [discard, Functor.discard, map_const, Function.comp, map_bind, bind_assoc, pure_bind]
      refine congrArg _ (funext fun before => congrArg _ (funext fun _ => congrArg _
        (funext fun _ => congrArg _ (funext fun _ => ?_))))
      -- only the answer looks at the state before
      exact bind_pure_unit
    obtain ⟨failed, silent, refreshed⟩ := exec_refreshing parts rfl (fun _ => rfl) run
    refine ⟨failed, silent, fun ok => ?_⟩
    obtain ⟨-, whole⟩ := refreshed ok
    exact ⟨_, within_settle settling now, whole⟩
  | _ => cases refreshes

/-- The lead-in of a request keeps current current unless it changes the tables, and it does not
change them without a refresh. -/
theorem ensures_leadIn (request : Request) (idle : Idle c) :
    Op.Ensures request.leadIn c fun r e => Idle e ∧
      (e.ledger = c.ledger → e.paths = c.paths → c.AllJustified → e.AllJustified) ∧
      (r = .ok false → e.ledger = c.ledger ∧ e.paths = c.paths) := by
  cases request with
  | ingestCapacity now snapshot withdrawals context =>
    apply Op.ensures_bind
    refine (ensures_declareCapacity (P := fun _ => True) (fun _ _ _ => trivial) now snapshot
      withdrawals context (fun _ => trivial) trivial (fun _ _ => trivial) c).mono ?_
    rintro (err | declared) e ⟨runs, records, paths, unchanged⟩
    · exact ⟨(runs idle).1, fun ledger _ h => h.congr records ledger paths, fun no => nomatch no⟩
    · refine ⟨(runs idle).1, fun ledger _ h => h.congr records ledger paths, fun silent => ?_⟩
      cases declared with
      | none => exact ⟨unchanged rfl, paths⟩
      | some _ => cases silent
  | ingestPaths now snapshot context =>
    apply Op.ensures_bind
    refine (ensures_declarePaths (P := fun _ _ => True) (fun _ => trivial) now snapshot context
      (fun _ _ => trivial) (fun _ _ => trivial)).mono ?_
    rintro (err | declared) e ⟨runs, records, ledger, unchanged⟩
    · exact ⟨(runs idle).1, fun _ paths h => h.congr records ledger paths, fun no => nomatch no⟩
    · refine ⟨(runs idle).1, fun _ paths h => h.congr records ledger paths, fun silent => ?_⟩
      cases declared with
      | none => exact ⟨ledger, unchanged rfl⟩
      | some _ => cases silent
  | reconcileLifecycle now context =>
    have clocked : ∀ m, Clocked m → Unbinding m := fun m h => by cases m <;> trivial
    have kept : ∀ {e : Coordinator}, Runs Unbinding c e → Idle e ∧
        (e.ledger = c.ledger → e.paths = c.paths → c.AllJustified → e.AllJustified) :=
      fun runs => ⟨(runs idle).1,
        fun _ _ h => runs.justified idle (fun _ => Unbinding.untabled) (.inl fun _ own => own) h⟩
    apply Op.ensures_bind
    unfold reconcileIn
    apply Op.ensures_get_bind
    refine Op.ensures_lift_bind (fun _ _ => ?_) fun _ _ => ?_
    · apply Op.ensures_bind
      refine (within_reconcile clocked now c).mono ?_
      rintro (err | ⟨⟩) e runs
      · exact ⟨(kept runs).1, (kept runs).2, fun no => nomatch no⟩
      · exact ⟨(kept runs).1, (kept runs).2, fun no => nomatch no⟩
    · exact ⟨idle, fun _ _ h => h, fun no => nomatch no⟩
  | _ => exact ⟨idle, fun _ _ h => h, fun _ => ⟨rfl, rfl⟩⟩

/-- A request that does not refresh leaves the tables alone. -/
theorem makes_untabled (other : request.refreshes = false) {m : Move} (own : request.Makes m) :
    Untabled m := by
  rcases own with housekeeping | carries
  · exact housekeeping.untabled
  · cases m with
    | capacity now snapshot withdrawals applied withdrawn =>
      cases request <;> first | exact carries.elim | cases other
    | ledger table => cases request <;> first | exact carries.elim | cases other
    | paths now snapshot changed => cases request <;> first | exact carries.elim | cases other
    | pathTable table => cases request <;> first | exact carries.elim | cases other
    | _ => trivial

/-- **A request that refreshes**, if it succeeds and its turns settle. -/
theorem justified_refreshing (idle : Idle c) (refreshes : request.refreshes = true)
    (lead : request.leadIn.exec c = (.ok true, e))
    (settles : e.refreshSettles request.refreshClock = true) {c' : Coordinator}
    (run : request.perform.exec c = (.ok (), c')) : c'.AllJustified := by
  obtain ⟨rest, within, whole⟩ := (perform_leadIn refreshes lead).2.2 rfl
  exact justified_refreshed ((ensures_leadIn request idle).of_run lead).1 settles within
    (whole ▸ run)

/-- **A request that leaves the tables** keeps current current, if the ledger agrees on the failure
domains. -/
theorem justified_steady (idle : Idle c) {r : Except Error Bool} (lead : request.leadIn.exec c = (r, e))
    (ledger : e.ledger = c.ledger) (paths : e.paths = c.paths) (agrees : c.ledger.Agrees)
    (justified : c.AllJustified) : (request.perform.exec c).2.AllJustified := by
  obtain ⟨eIdle, kept, -⟩ := (ensures_leadIn request idle).of_run lead
  cases refreshes : request.refreshes with
  | false =>
    have runs : Runs request.Makes c (request.perform.exec c).2 := fun _ =>
      have moved := ensures_perform request c idle
      ⟨moved.1, moved.2.mono fun _ _ own => own.1⟩
    exact runs.justified idle (fun _ => makes_untabled refreshes) (.inr agrees) justified
  | true =>
    obtain ⟨failed, silent, refreshed⟩ := perform_leadIn refreshes lead
    have before := kept ledger paths justified
    rcases r with err | _ | _
    · rw [failed err rfl]
      exact before
    · rw [silent rfl]
      exact before
    · obtain ⟨rest, within, whole⟩ := refreshed rfl
      rw [whole]
      have runs := Op.within_bind (within_refreshApplicability (P := Untabled)
        (fun _ => Housekeeping.untabled) request.refreshClock true) (fun _ s =>
          (within s).mono fun _ _ h => h.mono fun _ => Unbinding.untabled) e
      exact Runs.justified eIdle (fun _ own => own) (.inr (ledger ▸ agrees)) runs before

end Request

namespace Coordinator

/-- **The start of a process**, if the turns of its refresh settle. -/
theorem justified_bootUp (idle : Idle c) {boot : Identity128} {now : Timestamp} {e c' : Coordinator}
    (lead : (bootIn boot now).exec c = (.ok (), e)) (settles : e.refreshSettles now = true)
    (run : (bootUp boot now).exec c = (.ok (), c')) : c'.AllJustified := by
  rw [bootUp_eq, Op.exec_bind_of_ok lead] at run
  exact justified_refreshed ((within_bootIn (P := fun _ => True) (fun _ _ => trivial) boot now trivial
    c).of_run lead idle).1 settles
    (within_releaseTerminalHistory (fun m h => by cases m <;> trivial) now) run

end Coordinator

/-! ## Runs -/

namespace System

open Coordinator (Idle)

/-- The state in which a request starts to refresh, and the clock it refreshes by. -/
def requestRefreshes (c : Coordinator) (request : Request) : Option (Coordinator × Timestamp) :=
  match request.leadIn.exec c with
  | (.ok true, e) => some (e, request.refreshClock)
  | _ => none

/-- The same for the start of a process. -/
def startRefreshes (config : Config) (boot : Identity128) (now : Timestamp) (faults : List Bool)
    (disk : Disk) : Option (Coordinator × Timestamp) :=
  match Coordinator.checkConfig config, Coordinator.recover config disk faults with
  | .ok (), .ok c =>
    match (Coordinator.bootIn boot now).exec c with
    | (.ok (), e) => some (e, now)
    | _ => none
  | _, _ => none

/-- The state in which an action starts to refresh, and the clock it refreshes by. -/
def refreshing : System → Action → Option (Coordinator × Timestamp)
  | .up c, { event := .request request, faults } => requestRefreshes (c.withFaults faults) request
  | .down disk, { event := .start config boot now, faults } =>
    startRefreshes config boot now faults disk
  | _, _ => none

theorem requestRefreshes_eq_some {c e : Coordinator} {request : Request} {now : Timestamp} :
    requestRefreshes c request = some (e, now) ↔
      request.leadIn.exec c = (.ok true, e) ∧ request.refreshClock = now := by
  unfold requestRefreshes
  rcases request.leadIn.exec c with ⟨_ | _ | _, d⟩ <;> simp

/-- **A process that has started** has refreshed. -/
theorem start_up {config : Config} {boot : Identity128} {now : Timestamp} {faults : List Bool}
    {disk : Disk} {c' : Coordinator} (up : start config boot now faults disk = .up c') : ∃ c e,
      startRefreshes config boot now faults disk = some (e, now) ∧
      Coordinator.recover config disk faults = .ok c ∧
      (Coordinator.bootIn boot now).exec c = (.ok (), e) ∧
      (Coordinator.bootUp boot now).exec c = (.ok (), c') := by
  unfold startRefreshes
  unfold start at up
  cases checked : Coordinator.checkConfig config with
  | error err =>
    rw [checked] at up
    cases up
  | ok =>
    cases recovered : Coordinator.recover config disk faults with
    | error err =>
      rw [checked, recovered] at up
      cases up
    | ok c =>
      rw [checked, recovered] at up
      dsimp only at up ⊢
      rcases lead : (Coordinator.bootIn boot now).exec c with ⟨_ | ⟨⟩, e⟩
      · rw [Coordinator.bootUp_eq, Op.exec_bind_of_error lead] at up
        cases up
      · rcases booted : (Coordinator.bootUp boot now).exec c with ⟨_ | ⟨⟩, d'⟩
        · rw [booted] at up
          cases up
        · rw [booted] at up
          obtain rfl := System.up.inj up
          exact ⟨c, e, rfl, rfl, lead, booted⟩

/-- The action is a capacity or path ingestion, a `reconcile_lifecycle` or an `open`, and succeeds. -/
def attests : System → Action → Bool
  | .up c, { event := .request request, faults } =>
    request.refreshes && (serve c request faults).1.toBool
  | .down disk, { event := .start config boot now, faults } =>
    (start config boot now faults disk).isUp
  | _, _ => false

/-- The action is a request that leaves the tables as they are, and they agree on the failure
domains. -/
def steady : System → Action → Prop
  | .up c, { event := .request request, faults } =>
    let e := (request.leadIn.exec (c.withFaults faults)).2
    e.ledger = c.ledger ∧ e.paths = c.paths ∧ c.ledger.Agrees
  | _, _ => False

/-- A refresh whose turns settled has been completed in the run, and what came after was steady. -/
inductive Refreshed : List Action → Prop
  | refresh {as : List Action} {a : Action} {e : Coordinator} {now : Timestamp}
      (starts : (run as).refreshing a = some (e, now)) (settles : e.refreshSettles now = true)
      (done : (run as).attests a = true) : Refreshed (as ++ [a])
  | steady {as : List Action} {a : Action} (before : Refreshed as) (steady : (run as).steady a) :
      Refreshed (as ++ [a])

/-- The turns of the refresh settle, and a request that refreshes nothing comes after a refresh. -/
def Settles (as : List Action) (a : Action) : Prop :=
  match (run as).refreshing a with
  | some (e, now) => e.refreshSettles now = true
  | none => Refreshed as

/-- **A refresh of the system** whose turns settle. -/
theorem justified_refresh {as : List Action} {a : Action} {c' e : Coordinator} {now : Timestamp}
    (starts : (run as).refreshing a = some (e, now)) (settles : e.refreshSettles now = true)
    (done : (run as).attests a = true) (up : (run as).step a = .up c') : c'.AllJustified := by
  obtain ⟨event, faults⟩ := a
  cases before : run as with
  | up c =>
    rw [before] at starts done up
    cases event with
    | request request =>
      obtain ⟨refreshes, ok⟩ := Bool.and_eq_true_iff.mp done
      have idle := idle_withFaults (reachable_idle before).1 faults
      obtain rfl := System.up.inj up
      obtain ⟨lead, rfl⟩ := requestRefreshes_eq_some.mp starts
      rcases served : serve c request faults with ⟨_ | ⟨⟩, d⟩
      · rw [served] at ok
        cases ok
      · exact Request.justified_refreshing idle refreshes lead settles served
    | start config boot now => cases done
    | stop => cases done
  | down disk =>
    rw [before] at starts done up
    cases event with
    | request request => cases done
    | stop => cases done
    | start config boot now =>
      obtain ⟨c, e', starts', recovered, lead, booted⟩ := start_up up
      obtain ⟨rfl, rfl⟩ := Prod.mk.inj (Option.some.inj (starts.symm.trans starts'))
      exact Coordinator.justified_bootUp (idle_recovered before recovered) lead settles booted

/-- What is refreshed and steady since is current where it says so. -/
theorem Refreshed.allJustified {as : List Action} (h : Refreshed as) :
    ∀ {c : Coordinator}, run as = .up c → c.AllJustified := by
  induction h with
  | refresh starts settles done =>
    intro c up
    rw [run_snoc] at up
    exact justified_refresh starts settles done up
  | @steady as a before steady ih =>
    intro c' up
    rw [run_snoc] at up
    cases there : run as with
    | down disk =>
      rw [there] at steady
      exact steady.elim
    | up c =>
      obtain ⟨event, faults⟩ := a
      rw [there] at steady up
      cases event with
      | request request =>
        obtain ⟨ledger, paths, agrees⟩ := steady
        obtain rfl := System.up.inj up
        have justified : (c.withFaults faults).AllJustified := (ih there).congr rfl rfl rfl
        exact Request.justified_steady (idle_withFaults (reachable_idle there).1 faults) rfl ledger
          paths agrees justified
      | start config boot now => exact steady.elim
      | stop => exact steady.elim

/-- A request that succeeds without a refresh changes nothing that matters. -/
theorem justified_silent {as : List Action} {a : Action} {c' : Coordinator}
    (silent : (run as).refreshing a = none) (before : Refreshed as)
    (done : (run as).attests a = true) (up : (run as).step a = .up c') : c'.AllJustified := by
  obtain ⟨event, faults⟩ := a
  cases there : run as with
  | up c =>
    rw [there] at silent done up
    cases event with
    | request request =>
      obtain ⟨refreshes, ok⟩ := Bool.and_eq_true_iff.mp done
      have idle := idle_withFaults (reachable_idle there).1 faults
      have justified : (c.withFaults faults).AllJustified := before.allJustified there |>.congr rfl rfl rfl
      obtain rfl := System.up.inj up
      rcases lead : request.leadIn.exec (c.withFaults faults) with ⟨err | _ | _, e⟩
      · have failed := (Request.perform_leadIn refreshes lead).1 err rfl
        unfold serve at ok
        rw [failed] at ok
        cases ok
      · obtain ⟨-, kept, unchanged⟩ := (Request.ensures_leadIn request idle).of_run lead
        obtain ⟨ledger, paths⟩ := unchanged rfl
        unfold serve
        rw [(Request.perform_leadIn refreshes lead).2.1 rfl]
        exact kept ledger paths justified
      · have starts := requestRefreshes_eq_some.mpr ⟨lead, rfl⟩
        cases silent.symm.trans starts
    | start config boot now => cases done
    | stop => cases done
  | down disk =>
    rw [there] at silent done up
    cases event with
    | request request => cases done
    | stop => cases done
    | start config boot now =>
      obtain ⟨c, e, starts, -⟩ := start_up up
      cases silent.symm.trans starts

end System

namespace System.Sample

/-- The policy of the claims permits a revalidation. -/
def selfRevalidating : Action :=
  { event := .request (.ingestPolicy 2
      { name := FixedName.lit "default", generation := 1, autoRevalidateOnGenerationChange := true }
      (context 1 0)) }

/-- The resource is stated again, with the given capacity. -/
def restated (capacity : Bandwidth) : Action :=
  { event := .request (.ingestCapacity 4
      { id := 12
        generation := 2
        resources := [{ resource with generation := 2, reservableCapacity := capacity }] } []
      (context 1 0)) }

/-- A reservation under the policy. -/
def selfRevalidated : List Action := [opened 0, selfRevalidating, ingested, created 1 3 20 30 50]

end System.Sample

end Brf
