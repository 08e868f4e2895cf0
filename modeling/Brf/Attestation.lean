import Brf.References
import Brf.Tables

/-!
# What the authority of a record attests

The authority vector of a record names the generation, the claimant and the resources it was
committed with.

* `Denotes held terms generation names`: the resources that terms denote. Those of a path are the
  components that a statement which `held` accepts gives the path at the generation.
* `Attested held r`: the authority of `r` agrees with its key and its terms.
* `AmendPlan.inStep`: every member an amendment registers succeeds a live member at the generation
  the amendment names. Otherwise the vector it gives the member, made for that generation, is not
  about the generation the member has.
* `HeldIn as path`: at some moment of the run the path table has said the same as `path`.

Results: `authority_attested` (in runs whose amendments are in step and whose paths have generations
other than zero), and `grown_member_misattested`.
-/

namespace Brf

open Brf.Lib

/-! ## Attested records -/

/-- The resources that the terms of a reservation denote. -/
def Denotes (held : PathAuthority → Prop) (terms : ReservationTerms)
    (generation : PathAuthorityGeneration) (names : List ResourceName) : Prop :=
  match terms.bindingKind with
  | .resources => ∀ n, n ∈ names ↔ n ∈ terms.resources
  | .path => ∃ path, held path ∧ path.path = terms.path ∧ path.generation = generation ∧
      ∀ n, n ∈ names ↔ n ∈ path.components

/-- A list of references and a path generation attest what terms denote. -/
structure Attests (held : PathAuthority → Prop) (terms : ReservationTerms)
    (generation : PathAuthorityGeneration) (refs : List ResourceRef) : Prop where
  rising : (refs.map ResourceRef.resource).Pairwise (· < ·)
  denotes : Denotes held terms generation (refs.map ResourceRef.resource)
  path : generation ≠ 0 ↔ terms.bindingKind = .path

/-- The authority of a record agrees with its key and its terms. -/
structure Attested (held : PathAuthority → Prop) (r : ReservationRecord) : Prop where
  generation : r.authority.reservationGeneration = r.generation
  claimant : r.authority.claimant = r.terms.claimant
  claimantGeneration : r.authority.claimantGeneration = r.terms.claimantGeneration
  resources : Attests held r.terms r.authority.pathGeneration r.authority.resources

theorem Attests.mono {held held' : PathAuthority → Prop} (imp : ∀ p, held p → held' p)
    {terms : ReservationTerms} {generation : PathAuthorityGeneration} {refs : List ResourceRef}
    (h : Attests held terms generation refs) : Attests held' terms generation refs := by
  refine ⟨h.rising, ?_, h.path⟩
  have denotes := h.denotes
  unfold Denotes at denotes ⊢
  cases kind : terms.bindingKind with
  | resources =>
    rw [kind] at denotes
    exact denotes
  | path =>
    rw [kind] at denotes
    obtain ⟨path, own, rest⟩ := denotes
    exact ⟨path, imp path own, rest⟩

theorem Attested.mono {held held' : PathAuthority → Prop} (imp : ∀ p, held p → held' p)
    {r : ReservationRecord} (h : Attested held r) : Attested held' r :=
  ⟨h.generation, h.claimant, h.claimantGeneration, h.resources.mono imp⟩

/-- The state of a record does not matter. -/
theorem lasting_attested (held : PathAuthority → Prop) :
    Coordinator.Lasting (Attested held) := by
  intro r r' descends h
  have generation := descends.generation
  obtain ⟨-, terms, authority⟩ := descends
  refine ⟨?_, ?_, ?_, ?_⟩
  · rw [authority, generation]
    exact h.generation
  · rw [authority, terms]
    exact h.claimant
  · rw [authority, terms]
    exact h.claimantGeneration
  · rw [authority, terms]
    exact h.resources

namespace Coordinator

/-! ## Bindings -/

section

variable {c c' : Coordinator} {terms : ReservationTerms} {binding b : ResolvedBinding}

theorem bindResources_names : ∀ {names : List ResourceName} {binding b : ResolvedBinding},
    c.bindResources names binding = .ok b →
      b.resources.map ResourceRef.resource = binding.resources.map ResourceRef.resource ++ names ∧
        b.pathGeneration = binding.pathGeneration
  | [], binding, b, ok => by
    obtain rfl := Except.ok.inj ok
    simp
  | name :: rest, binding, b, ok => by
    unfold bindResources at ok
    split at ok
    · exact absurd ok (by simp [throw, throwThe, MonadExceptOf.throw])
    · split at ok
      · exact absurd ok (by simp [throw, throwThe, MonadExceptOf.throw])
      · obtain ⟨names, generation⟩ := bindResources_names ok
        refine ⟨?_, generation⟩
        rw [names]
        simp [ResolvedBinding.bind]

theorem bindComponents_names : ∀ {names : List ResourceName} {binding b : ResolvedBinding},
    c.bindComponents names binding = .ok b →
      b.resources.map ResourceRef.resource = binding.resources.map ResourceRef.resource ++ names ∧
        b.pathGeneration = binding.pathGeneration
  | [], binding, b, ok => by
    obtain rfl := Except.ok.inj ok
    simp
  | name :: rest, binding, b, ok => by
    unfold bindComponents at ok
    split at ok
    · exact absurd ok (by simp [throw, throwThe, MonadExceptOf.throw])
    · obtain ⟨names, generation⟩ := bindComponents_names ok
      refine ⟨?_, generation⟩
      rw [names]
      simp [ResolvedBinding.bind]

theorem bindPath_names (ok : c.bindPath terms binding = .ok b) : ∃ entry,
    c.paths[terms.path]? = some entry ∧
      b.resources.map ResourceRef.resource =
        binding.resources.map ResourceRef.resource ++ entry.path.components ∧
      b.pathGeneration = entry.path.generation := by
  obtain ⟨entry, found, -, components⟩ := bindPath_ok ok
  exact ⟨entry, found, bindComponents_names components⟩

/-- **A resolved binding** attests what the terms denote. -/
theorem resolveBinding_attests {held : PathAuthority → Prop} (h : PathsHold held c)
    (numbered : ∀ p, held p → p.generation ≠ 0) (ok : c.resolveBinding terms = .ok b) :
    Attests held terms b.pathGeneration b.resources := by
  have canonical : ∀ binding : ResolvedBinding, (do
        let resources ← canonicalizeResources binding.resources
        let failureDomains ← canonicalizeFailureDomains binding.failureDomains
        pure { binding with resources, failureDomains } : Result ResolvedBinding) = .ok b →
      b.pathGeneration = binding.pathGeneration ∧
        (b.resources.map ResourceRef.resource).Pairwise (· < ·) ∧
        ∀ n, n ∈ b.resources.map ResourceRef.resource ↔
          n ∈ binding.resources.map ResourceRef.resource := by
    intro binding ok
    obtain ⟨resources, named, ok⟩ := Result.bind_eq_ok.mp ok
    obtain ⟨domains, -, ok⟩ := Result.bind_eq_ok.mp ok
    obtain rfl := Except.ok.inj ok
    exact ⟨rfl, canonicalizeResources_names named⟩
  unfold resolveBinding at ok
  cases kind : terms.bindingKind with
  | resources =>
    rw [kind] at ok
    obtain ⟨binding, bound, ok⟩ := Result.bind_eq_ok.mp ok
    obtain ⟨generation, rising, names⟩ := canonical binding ok
    obtain ⟨listed, none⟩ := bindResources_names bound
    refine ⟨rising, ?_, ?_⟩
    · unfold Denotes
      rw [kind]
      intro n
      rw [names n, listed]
      simp
    · rw [generation, none, kind]
      simp
  | path =>
    rw [kind] at ok
    obtain ⟨binding, bound, ok⟩ := Result.bind_eq_ok.mp ok
    obtain ⟨generation, rising, names⟩ := canonical binding ok
    obtain ⟨entry, found, listed, stated⟩ := bindPath_names bound
    obtain ⟨named, own⟩ := h _ entry found
    refine ⟨rising, ?_, ?_⟩
    · unfold Denotes
      rw [kind]
      refine ⟨entry.path, own, named, (generation.trans stated).symm, fun n => ?_⟩
      rw [names n, listed]
      simp
    · rw [generation, stated, kind]
      simp [numbered _ own]

/-! ## What the commits register -/

/-- A record whose authority was made for its generation and its terms. -/
theorem attested_of {held : PathAuthority → Prop} {r : ReservationRecord} {window : Interval}
    {policy : PolicyRecord} {generation : ReservationGeneration}
    (attests : Attests held terms b.pathGeneration b.resources)
    (made : r.authority = c.authorityFor terms policy b generation)
    (same : r.terms = shifted terms window) (numbered : generation = r.generation) :
    Attested held r := by
  refine ⟨?_, ?_, ?_, ?_⟩
  · rw [made]
    exact numbered
  · rw [made, same]
    rfl
  · rw [made, same]
    rfl
  · rw [made, same]
    exact ⟨attests.rising, attests.denotes, attests.path⟩

theorem attested_createRecords {held : PathAuthority → Prop} {p : CreatePlan}
    (attests : Attests held p.terms p.binding.pathGeneration p.binding.resources) :
    ∀ r ∈ c.createRecords p, Attested held r := by
  intro r mem
  unfold createRecords at mem
  split at mem
  · obtain ⟨i, -, rfl⟩ := List.mem_mapIdx.mp mem
    exact attested_of attests rfl rfl rfl
  · rw [List.mem_singleton.mp mem]
    exact attested_of attests rfl rfl rfl

/-- Every member an amendment registers succeeds a live member at the generation it names. -/
def AmendPlan.inStep (p : AmendPlan) (c : Coordinator) : Bool :=
  !p.predecessor.seriesMember ||
    match c.supersededBy p with
    | .error _ => true
    | .ok superseded => p.intervals.length ≤ superseded.length &&
        (superseded.take p.intervals.length).all fun r => r.generation = p.target.generation

theorem attested_amend {held : PathAuthority → Prop} {p : AmendPlan} (idle : Idle c)
    (admitted : p.Admitted c) (attests : Attests held p.terms p.binding.pathGeneration
      p.binding.resources) (inStep : p.inStep c = true)
    {superseded successors : List ReservationRecord} {mutation : ReservationMutation}
    (chosen : c.supersededBy p = .ok superseded)
    (made : c.amendMutation p superseded = .ok (mutation, successors)) :
    ∀ r ∈ successors, Attested held r := by
  intro r mem
  rcases (amendMutation_successors made).2 with ⟨member, rfl⟩ | ⟨single, rfl⟩
  · unfold AmendPlan.inStep at inStep
    rw [member, chosen] at inStep
    obtain ⟨room, level⟩ : p.intervals.length ≤ superseded.length ∧
        ∀ r ∈ superseded.take p.intervals.length, r.generation = p.target.generation := by
      simpa using inStep
    obtain ⟨i, inside, rfl⟩ := List.mem_mapIdx.mp mem
    have within : i < superseded.length := lt_of_lt_of_le inside room
    have there : superseded[i]? = some superseded[i] := List.getElem?_eq_getElem within
    have same := level _ (List.mem_iff_getElem.mpr
      ⟨i, by rw [List.length_take]; omega, List.getElem_take⟩)
    unfold amendedMember
    rw [there]
    exact attested_of attests rfl rfl (congrArg (· + 1) same.symm)
  · rw [List.mem_singleton.mp mem]
    have named := idle.consistent.keyed _ _ admitted.predecessor
    have same : p.predecessor.generation = p.target.generation :=
      congrArg ReservationKey.generation named
    exact attested_of attests rfl rfl (congrArg (· + 1) same.symm)

end

end Coordinator

/-! ## Runs -/

/-- At some moment of the run the path table has said the same as `path`. -/
def HeldIn (as : List Action) (path : PathAuthority) : Prop :=
  ∃ bs, bs <+: as ∧ ∃ e, (System.run bs).coordinator.paths[path.path]? = some e ∧
    e.path.generation = path.generation ∧ e.path.components = path.components

/-- The amendment is decided in step, and the paths that are ingested have generations. -/
def System.inStep (s : System) (a : Action) : Bool :=
  match s, a.event with
  | .up c, .request (.amend now context target generation terms false) =>
    match (Coordinator.admitAmend now context target generation terms).exec
      (c.withFaults a.faults) with
    | (.ok (.inr p), d) => p.inStep d
    | _ => true
  | .up _, .request (.ingestPaths _ stated _) => stated.paths.all fun p => p.generation.val ≠ 0
  | _, _ => true

namespace Coordinator

section

variable {as : List Action} {s : System} {a : Action} {c c' : Coordinator} {m : Move}

/-- What the path table of a run without unnumbered paths says. -/
def Numbered (as : List Action) (path : PathAuthority) : Prop :=
  HeldIn as path ∧ path.generation ≠ 0

/-- The amendment of an action is decided in the state its move is made in. -/
theorem inStep_amend (ok : s.inStep a = true) {p : AmendPlan}
    {superseded successors : List ReservationRecord} {mutation : ReservationMutation}
    (own : a.Makes (.amend p superseded successors mutation))
    (there : System.From a s c (.amend p superseded successors mutation)) :
    p.inStep c = true := by
  obtain ⟨event, faults⟩ := a
  cases event with
  | start config boot now => exact own.elim False.elim fun no => nomatch no
  | stop => exact own.elim
  | request request =>
    cases s with
    | down disk => exact there.elim
    | up c₀ =>
      have carries := own.resolve_left False.elim
      cases request with
      | amend now context target generation terms dryRun =>
        obtain ⟨real, -⟩ := carries
        subst real
        unfold System.inStep at ok
        dsimp only at ok
        rw [show (admitAmend now context target generation terms).exec (c₀.withFaults faults) =
          (.ok (.inr p), c) from there] at ok
        exact ok
      | _ => exact carries.elim

/-- **What a move registers** is attested, by paths that the path table holds. -/
theorem attested_registered {held : PathAuthority → Prop} (idle : Idle c) (paths : PathsHold held c)
    (numbered : ∀ p, held p → p.generation ≠ 0) (takes : m.Takes c c')
    (inStep : ∀ p superseded successors mutation, m = .amend p superseded successors mutation →
      p.inStep c = true) :
    ∀ r, .record r ∈ m.recollections c → Attested held r := by
  intro r mem
  rcases record_recollections mem with ⟨p, victims, rfl, registered⟩ |
    ⟨p, superseded, successors, mutation, rfl, registered⟩ | ⟨r', binding, now, context, rfl, rfl⟩
  · obtain ⟨admitted, -⟩ := takes
    have windows := (expandSeries_length admitted.intervals).2
    rw [createMutation_records c victims windows] at registered
    exact attested_createRecords (resolveBinding_attests paths numbered admitted.binding) _ registered
  · obtain ⟨made, -⟩ := takes_amend idle takes
    exact attested_amend idle takes.1 (resolveBinding_attests paths numbered takes.1.binding)
      (inStep _ _ _ _ rfl) takes.2.1 made _ registered
  · exact @attested_of _ _ _ held _ r'.terms.interval _ _
      (resolveBinding_attests paths numbered takes.1) rfl rfl rfl

/-- An ingestion of paths is made in the state the action has found, and the action ends with the
table it leaves. -/
theorem paths_ingested (idle : Idle c) {now : Timestamp} {stated : PathAuthoritySnapshot}
    {changed : List PathName} (own : a.Makes (.paths now stated changed))
    (there : System.From a s c (.paths now stated changed))
    (takes : (Move.paths now stated changed).Takes c c') (ok : s.inStep a = true) :
    (s.step a).coordinator.paths = c'.paths ∧ ∀ p ∈ stated.paths, p.generation ≠ 0 := by
  obtain ⟨event, faults⟩ := a
  cases event with
  | start config boot now => exact own.elim False.elim fun no => nomatch no
  | stop => exact own.elim
  | request request =>
    cases s with
    | down disk => exact there.elim
    | up c₀ =>
      have carries := own.resolve_left False.elim
      cases request with
      | ingestPaths now' stated' context =>
        obtain ⟨rfl, rfl⟩ := carries
        obtain ⟨valid, rfl⟩ := there
        obtain ⟨checked, c₁, c₂, applies, appended, rfl⟩ := takes
        refine ⟨?_, ?_⟩
        · change ((ingestPaths now stated context).exec (c₀.withFaults faults)).2.paths = c₂.paths
          rw [ingestPaths_paths idle valid checked, applies, appended.tables.paths]
        · intro p mem zero
          have numbered := List.all_eq_true.mp ok p mem
          rw [zero] at numbered
          exact absurd numbered (by decide)
      | _ => exact carries.elim

/-- The same for an ingestion that was not made durable. -/
theorem pathTable_ingested (idle : Idle c) {table : PathTable} (own : a.Makes (.pathTable table))
    (there : System.From a s c (.pathTable table)) (ok : s.inStep a = true) :
    (s.step a).coordinator.paths = table ∧
      ∃ (now : Timestamp) (stated : PathAuthoritySnapshot), (∀ p ∈ stated.paths, p.generation ≠ 0) ∧
        table = ((applyPaths stated.id now stated.paths).exec c).2.paths := by
  obtain ⟨event, faults⟩ := a
  cases event with
  | start config boot now => exact own.elim False.elim fun no => nomatch no
  | stop => exact own.elim
  | request request =>
    cases s with
    | down disk => exact there.elim
    | up c₀ =>
      have carries := own.resolve_left False.elim
      cases request with
      | ingestPaths now stated context =>
        obtain ⟨rfl, valid, checked, rfl⟩ := there
        refine ⟨?_, now, stated, ?_, rfl⟩
        · change ((ingestPaths now stated context).exec (c₀.withFaults faults)).2.paths = _
          rw [ingestPaths_paths idle valid checked]
        · intro p mem zero
          have numbered := List.all_eq_true.mp ok p mem
          rw [zero] at numbered
          exact absurd numbered (by decide)
      | _ => exact carries.elim

/-- A path table that is filed by name, and says what the action ends with. -/
theorem pathsHold_of_final {held : PathAuthority → Prop}
    (final : ∀ (n : PathName) (e : PathEntry), (s.step a).coordinator.paths[n]? = some e →
      e.path.path = n → held e.path)
    (same : (s.step a).coordinator.paths = c.paths)
    (filed : PathsHold (fun p => p.generation ≠ 0) c) :
    PathsHold (fun p => held p ∧ p.generation ≠ 0) c := fun n e there =>
  ⟨(filed n e there).1, final n e (same ▸ there) (filed n e there).1, (filed n e there).2⟩

/-- The path table of a run in step, and its records, are attested. -/
theorem sustains_attested (as : List Action) :
    System.Sustains (fun s a => s.inStep a = true ∧ ∀ (n : PathName) (e : PathEntry),
        (s.step a).coordinator.paths[n]? = some e → e.path.path = n → HeldIn as e.path)
      (fun c x => PathsHold (Numbered as) c ∧ All (Attested (Numbered as)) c ∧
        (∀ p ∈ x.stated, Numbered as p) ∧ ∀ t ∈ x.recollections, t.Meets (Attested (Numbered as)))
      (fun _ x => (∀ p ∈ x.stated, Numbered as p) ∧
        ∀ t ∈ x.recollections, t.Meets (Attested (Numbered as))) where
  move := by
    rintro s a c c' x m ⟨ok, final⟩ own there idle - ⟨paths, all, stated, meets⟩ takes
    have registered := attested_registered idle paths (fun _ h => h.2) takes
      fun p superseded successors mutation same => by
        subst same
        exact inStep_amend ok own there
    have recorded := all_takes (lasting_attested _) idle takes all registered
    have written := all_leaves idle takes all meets registered
    have numbered : PathsHold (fun p => p.generation ≠ 0) c :=
      fun n e found => ⟨(paths n e found).1, (paths n e found).2.2⟩
    have tables := tables_takes idle takes
    cases m with
    | paths now stated' changed =>
      obtain ⟨same, positive⟩ := paths_ingested idle own there takes ok
      obtain ⟨checked, c₁, c₂, applies, appended, rfl⟩ := takes
      have filed : PathsHold (fun p => p.generation ≠ 0) c₁ :=
        (pathsHold_applyPaths stated'.id now numbered positive).of_run applies
      have held := pathsHold_of_final (c := c₂.sawPaths stated') final same
        (filed.same appended.tables.paths)
      refine ⟨held, recorded, ?_, written⟩
      refine stated_leaves (.paths now stated' changed) paths stated ?_
      rintro _ _ _ ⟨⟩ p mem
      obtain ⟨e, found, generation, components⟩ :=
        (applyPaths_stated stated'.id now (nodup_of_checked checked)).of_run applies changed rfl p mem
      have found' : (c₂.sawPaths stated').paths[p.path]? = some e :=
        (congrArg (fun t : PathTable => t[p.path]?) appended.tables.paths).trans found
      obtain ⟨named, ⟨bs, before, e', there', generation', components'⟩, -⟩ := held p.path e found'
      refine ⟨⟨bs, before, e', named ▸ there', generation'.trans generation,
        components'.trans components⟩, positive p mem⟩
    | pathTable table =>
      obtain ⟨same, now, stated', positive, made⟩ := pathTable_ingested idle own there ok
      obtain rfl := takes
      have filed : PathsHold (fun p => p.generation ≠ 0) { c with paths := table } := by
        rw [made]
        exact pathsHold_applyPaths stated'.id now numbered positive
      refine ⟨pathsHold_of_final (c := { c with paths := table }) final same filed, recorded, ?_,
        written⟩
      exact stated_leaves (.pathTable table) paths stated fun _ _ _ no => nomatch no
    | _ =>
      refine ⟨paths.same tables.paths, recorded, ?_, written⟩
      exact stated_leaves _ paths stated fun _ _ _ no => nomatch no
  recover := fun _ w sound ⟨stated, meets⟩ h =>
    ⟨pathsHold_recover w h stated, all_recover (lasting_attested _) w sound h meets, stated, meets⟩
  close := fun _ ⟨_, _, stated, meets⟩ => ⟨stated, meets⟩

end

end Coordinator

/-- **Authority vectors** are consistent in every run whose amendments are in step and whose paths
have generations: every record, stored or archived, is attested, by what the path table has held. -/
theorem authority_attested {as : List Action}
    (inStep : Along System.step (fun s a => s.inStep a = true) System.initial as) {c : Coordinator}
    (h : System.run as = .up c) : Coordinator.All (Attested (HeldIn as)) c := by
  have allowed : Along System.step (fun s a => s.inStep a = true ∧
      ∀ (n : PathName) (e : PathEntry), (s.step a).coordinator.paths[n]? = some e →
        e.path.path = n → HeldIn as e.path) System.initial as := by
    refine along_of_split System.step fun bs a cs split => ?_
    subst split
    refine ⟨((along_append System.step _ _ _).mp inStep).2.1, fun n e there named => ?_⟩
    refine ⟨bs ++ [a], ⟨cs, by simp⟩, e, ?_, rfl, rfl⟩
    rw [System.run_snoc, named]
    exact there
  have held := (Coordinator.sustains_attested as).after
    (System.holds_initial ⟨fun _ no => absurd no List.not_mem_nil,
      fun _ no => absurd no List.not_mem_nil⟩) allowed
  rw [show after System.step System.initial as = .up c from h] at held
  obtain ⟨-, x, -, -, -, all, -⟩ := held
  exact ⟨fun k r there => (all.stored k r there).mono fun _ both => both.1,
    fun id r there => (all.archived id r there).mono fun _ both => both.1⟩

open System.Sample in
/-- A series of two, amended as it is. -/
theorem authority_attested_series :
    let as := [opened 0, ingested, createdSeries 3 10 2, amendedSeries 4 101 0 1 20 2]
    Coordinator.All (Attested (HeldIn as)) (System.run as).coordinator :=
  authority_attested (by decide +kernel) (System.eq_up (by decide +kernel))

open System.Sample in
/-- A series of two that is amended to three: the new member has the generation 1, and an authority
vector for the generation 2. -/
theorem grown_member_misattested :
    ¬ ∀ (as : List Action) (c : Coordinator), System.run as = .up c →
      Coordinator.All (Attested (HeldIn as)) c := by
  intro claimed
  have all := claimed [opened 0, ingested, createdSeries 3 10 2, amendedSeries 4 101 0 1 20 3] _
    (System.eq_up (by decide +kernel))
  have grown : ((System.run [opened 0, ingested, createdSeries 3 10 2,
      amendedSeries 4 101 0 1 20 3]).coordinator.records[(⟨member 2, 1⟩ : ReservationKey)]?).any
        fun r => r.generation = 1 && r.authority.reservationGeneration = 2 := by
    decide +kernel
  obtain ⟨r, stored, numbers⟩ := (Option.any_eq_true _ _).mp grown
  obtain ⟨one, two⟩ : r.generation = 1 ∧ r.authority.reservationGeneration = 2 := by
    simpa using numbers
  have same := (all.stored _ r stored).generation
  rw [one, two] at same
  exact absurd same (by decide)

end Brf
