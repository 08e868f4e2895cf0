import Brf.Descent

/-!
# The registries of paths and claimants

The path table holds what ingestions have stated, and the registry of claimants what registrations
have said; both come back from the directory.

* `PathsHold held c`: every entry of the path table is filed under its name and says what `held`
  accepts.
* `Contents.stated x`: the path statements that a directory brings back.
* `Contents.claimants x`: the registry of claimants that a directory brings back.

Results: `pathsHold_recover` and `stated_leaves` for the paths, and for the claimants
`claimants_leaves` and `claimants_recover` (the registry of a coordinator is the one its directory
brings back) and `registered_mono` (a registered generation never decreases).
-/

namespace Brf

open Brf.Lib

/-! ## What a directory says -/

/-- The path statements of a record of the journal. -/
def statements : DurableRecord → List PathAuthority
  | .pathSnapshot snapshot => snapshot.paths
  | _ => []

/-- The path statements that a directory brings back. -/
def Contents.stated (x : Contents) : List PathAuthority :=
  (x.base.map fun s => s.paths.map PathEntry.path).getD [] ++ x.tail.flatMap statements

/-- The registry with one registration more, unless a later generation is known. -/
def registered (table : Map ClaimantId ClaimantGeneration) (registration : ClaimantMutation) :
    Map ClaimantId ClaimantGeneration :=
  if ∀ known ∈ table[registration.claimant]?, known < registration.generation then
    table.insert registration.claimant registration.generation
  else table

/-- The registrations of a record of the journal. -/
def registrations : DurableRecord → List ClaimantMutation
  | .claimantRegistration registration => [registration]
  | _ => []

/-- The registry of claimants that a directory brings back. -/
def Contents.claimants (x : Contents) : Map ClaimantId ClaimantGeneration :=
  ((x.base.map SnapshotState.claimants).getD [] ++ x.tail.flatMap registrations).foldl registered ∅

/-- A registered generation never decreases. -/
theorem registered_mono {table : Map ClaimantId ClaimantGeneration} (registration : ClaimantMutation)
    {claimant : ClaimantId} {generation : ClaimantGeneration}
    (there : table[claimant]? = some generation) :
    ∃ later, (registered table registration)[claimant]? = some later ∧ generation ≤ later := by
  unfold registered
  split
  · rename_i newer
    rw [Map.get_insert]
    split
    · rename_i same
      exact ⟨_, rfl, le_of_lt (newer generation (same ▸ there))⟩
    · exact ⟨generation, there, le_rfl⟩
  · exact ⟨generation, there, le_rfl⟩

/-- The registry lists every claimant once, so that it is read back as it was. -/
theorem foldl_registered {entries : List (ClaimantId × ClaimantGeneration)} :
    ∀ {table : Map ClaimantId ClaimantGeneration}, entries.Pairwise (fun a b => a.1 ≠ b.1) →
      (∀ e ∈ entries, table[e.1]? = none) → ∀ (k : ClaimantId) (g : ClaimantGeneration),
        ((entries.map fun e => ({ claimant := e.1, generation := e.2 } : ClaimantMutation)).foldl
          registered table)[k]? = some g ↔ (k, g) ∈ entries ∨ table[k]? = some g := by
  induction entries with
  | nil => exact fun _ _ k g => by simp
  | cons e rest ih =>
    obtain ⟨k', g'⟩ := e
    intro table apart absent k g
    obtain ⟨others, apart⟩ := List.pairwise_cons.mp apart
    obtain ⟨here, absent⟩ := List.forall_mem_cons.mp absent
    have turn : registered table { claimant := k', generation := g' } = table.insert k' g' := by
      unfold registered
      exact if_pos (by simp [here])
    rw [List.map_cons, List.foldl_cons, turn, ih apart fun e' mem => by
      rw [Map.get_insert, if_neg (others e' mem).symm]
      exact absent e' mem]
    rw [List.mem_cons, Map.get_insert]
    by_cases same : k = k'
    · subst same
      rw [if_pos rfl]
      constructor
      · rintro (mem | last)
        · exact absurd rfl (others (k, g) mem)
        · exact .inl (.inl (by rw [Option.some.inj last]))
      · rintro ((first | mem) | there)
        · exact .inr (congrArg some (Prod.mk.inj first).2.symm)
        · exact .inl mem
        · exact absurd (here.symm.trans there) (by simp)
    · rw [if_neg same]
      constructor
      · exact fun h => h.imp_left .inr
      · rintro ((first | mem) | there)
        · exact absurd (Prod.mk.inj first).1 same
        · exact .inl mem
        · exact .inr there

namespace Coordinator

/-! ## What replay does to them -/

/-- The registries are the same. -/
structure SameRegistries (c c' : Coordinator) : Prop where
  paths : c'.paths = c.paths
  claimants : c'.claimants = c.claimants

instance : IsPreorder Coordinator SameRegistries where
  refl _ := ⟨rfl, rfl⟩
  trans _ _ _ h h' := ⟨h'.paths.trans h.paths, h'.claimants.trans h.claimants⟩

theorem SameTables.registries {c c' : Coordinator} (h : SameTables c c') : SameRegistries c c' :=
  ⟨h.paths, h.claimants⟩

theorem tables_recallAttempt (c : Coordinator) (attempt : Option AttemptMutation) :
    SameTables c (c.recallAttempt attempt) := by
  cases attempt with
  | none => exact .refl c
  | some a => exact tables_rememberAttempt c a

theorem tables_recallSeries (c : Coordinator) (series : ReservationSeries) :
    SameTables c (c.recallSeries series) := ⟨rfl, rfl, rfl, rfl, rfl, rfl, rfl, rfl⟩

theorem registries_replayRetire (c : Coordinator) (key : ReservationKey) :
    SameRegistries c (c.replayRetire key) := by
  unfold replayRetire
  split <;> exact ⟨rfl, rfl⟩

theorem registries_foldl {α : Type} {f : Coordinator → α → Coordinator}
    (turn : ∀ c x, SameRegistries c (f c x)) :
    ∀ (xs : List α) (c : Coordinator), SameRegistries c (xs.foldl f c)
  | [], c => Std.Refl.refl c
  | x :: xs, c => IsTrans.trans _ _ _ (turn c x) (registries_foldl turn xs (f c x))

theorem within_registries_replayReservation (mutation : ReservationMutation) :
    Op.Within SameRegistries (replayReservation mutation) := by
  have same : ∀ c : Coordinator, SameRegistries c c := fun c => ⟨rfl, rfl⟩
  unfold replayReservation
  refine Op.within_bind (fun c => ?_) fun _ => ?_
  · unfold replaySupersession
    refine Op.ensures_ite (fun _ => ?_) fun _ => same c
    apply Op.ensures_get_bind
    split
    · exact same c
    · rename_i r _
      exact Op.ensures_set (tables_moveRecord c r _).registries
  refine Op.within_bind (Op.within_modify fun _ => ⟨rfl, rfl⟩) fun _ => ?_
  refine Op.within_bind (Op.within_modify fun c =>
    (SameTables.foldl tables_recallRecord _ c).registries) fun _ => ?_
  refine Op.within_bind (Op.within_modify fun c =>
    (SameTables.foldl tables_recallSeries _ c).registries) fun _ => ?_
  refine Op.within_bind (Op.within_each (fun companion c => ?_) _) fun _ => ?_
  · unfold replayCompanion
    apply Op.ensures_get_bind
    split
    · exact same c
    · rename_i r _
      exact Op.ensures_set (tables_moveRecord c r _).registries
  · exact Op.within_modify fun c => (tables_recallAttempt c _).registries

theorem within_registries_replayState (mutation : StateMutation) :
    Op.Within SameRegistries (replayState mutation) := by
  intro c
  unfold replayState
  apply Op.ensures_get_bind
  split
  · exact ⟨rfl, rfl⟩
  · rename_i r _
    exact Op.ensures_set ((tables_moveRecord c r _).trans (tables_recallAttempt _ _)).registries

theorem within_registries_replayCapacity (capacity : CapacityMutation) :
    Op.Within SameRegistries (replayCapacity capacity) := by
  unfold replayCapacity
  refine Op.within_bind (Op.within_each (fun resource => ?_) _) fun _ => ?_
  · refine Op.within_bind Op.within_get fun _ => ?_
    refine Op.within_bind (Op.within_lift _) fun _ => ?_
    exact Op.within_modify fun _ => ⟨rfl, rfl⟩
  refine Op.within_bind (Op.within_each (fun name => ?_) _) fun _ => ?_
  · refine Op.within_get_bind fun c => ?_
    split
    · exact ⟨rfl, rfl⟩
    · exact Op.within_refuseIf _ _ c
  · exact Op.within_modify fun _ => ⟨rfl, rfl⟩

theorem recallClaimant_eq (c : Coordinator) (registration : ClaimantMutation) :
    c.recallClaimant registration =
      { c with claimants := registered c.claimants registration } := by
  unfold recallClaimant registered
  cases found : c.claimants[registration.claimant]? with
  | none => simp
  | some known =>
    by_cases newer : known < registration.generation
    · simp [newer]
    · simp [newer]

/-- **Replay** changes a registry only by what a record says of it. -/
theorem within_registries_applyReplay {d : DurableRecord} (paths : ∀ s, d ≠ .pathSnapshot s)
    (claimants : ∀ r, d ≠ .claimantRegistration r) :
    Op.Within SameRegistries (applyReplay d) := by
  cases d with
  | pathSnapshot s => exact absurd rfl (paths s)
  | claimantRegistration r => exact absurd rfl (claimants r)
  | fabricBoot epoch =>
    refine Op.within_modify fun c => ?_
    split
    · exact ⟨rfl, rfl⟩
    · exact ⟨rfl, rfl⟩
  | capacitySnapshot capacity => exact within_registries_replayCapacity capacity
  | policyRecord policy =>
    refine Op.within_bind Op.within_get fun _ => ?_
    refine Op.within_bind (Op.within_lift _) fun _ => ?_
    exact Op.within_modify fun _ => ⟨rfl, rfl⟩
  | reservationCommit mutation => exact within_registries_replayReservation mutation
  | reservationAmend mutation => exact within_registries_replayReservation mutation
  | reservationSeries mutation => exact within_registries_replayReservation mutation
  | reservationState mutation => exact within_registries_replayState mutation
  | reservationApplicability mutation =>
    intro c
    change Op.Ensures (replayApplicability mutation) c _
    unfold replayApplicability
    apply Op.ensures_get_bind
    split <;> exact ⟨rfl, rfl⟩
  | attemptOutcome attempt =>
    exact Op.within_modify fun c => (tables_rememberAttempt c attempt).registries
  | fence record => exact Op.within_modify fun _ => ⟨rfl, rfl⟩
  | overcommit mutation => exact Op.within_modify fun _ => ⟨rfl, rfl⟩
  | retire mutation => exact Op.within_modify (registries_foldl registries_replayRetire _)

/-! ## Paths -/

/-- Every entry of the path table is filed under its name, and says what `held` accepts. -/
def PathsHold (held : PathAuthority → Prop) (c : Coordinator) : Prop :=
  ∀ (n : PathName) (e : PathEntry), c.paths[n]? = some e → e.path.path = n ∧ held e.path

section

variable {held : PathAuthority → Prop} {c c' : Coordinator}

theorem PathsHold.same (h : PathsHold held c) (paths : c'.paths = c.paths) : PathsHold held c' :=
  fun n e there => h n e (paths ▸ there)

/-- An entry of the table after a statement was there, or states it. -/
theorem apply_entry {table table' : PathTable} {path : PathAuthority}
    {snapshot : CapacitySnapshotId} {now : Timestamp} {changed : Bool}
    (ok : table.apply path snapshot now = .ok (changed, table')) {n : PathName} {e : PathEntry}
    (there : table'[n]? = some e) : (∃ before, table[n]? = some before ∧ e.path = before.path) ∨
      n = path.path ∧ e.path = path := by
  have inserted : ∀ entry : PathEntry, table' = table.insert path.path entry →
      ((∃ before, table[path.path]? = some before ∧ entry.path = before.path) ∨
        entry.path = path) →
      (∃ before, table[n]? = some before ∧ e.path = before.path) ∨ n = path.path ∧ e.path = path := by
    rintro entry rfl origin
    rw [Map.get_insert] at there
    split at there
    · rename_i same
      obtain rfl := Option.some.inj there
      subst same
      exact origin.imp_right fun same => ⟨rfl, same⟩
    · exact .inl ⟨e, there, rfl⟩
  unfold PathTable.apply at ok
  obtain ⟨⟨⟩, -, ok⟩ := Result.bind_eq_ok.mp ok
  cases found : table[path.path]? with
  | none =>
    rw [found] at ok
    exact inserted _ (Prod.mk.inj (Except.ok.inj ok)).2.symm (.inr rfl)
  | some entry =>
    rw [found] at ok
    dsimp only at ok
    split at ok
    · split at ok
      · split at ok
        · obtain ⟨-, rfl⟩ := Prod.mk.inj (Except.ok.inj ok)
          exact .inl ⟨e, there, rfl⟩
        · exact inserted _ (Prod.mk.inj (Except.ok.inj ok)).2.symm (.inl ⟨entry, found, rfl⟩)
      · exact absurd ok (by simp [throw, throwThe, MonadExceptOf.throw])
    · split at ok
      · exact absurd ok (by simp [throw, throwThe, MonadExceptOf.throw])
      · exact inserted _ (Prod.mk.inj (Except.ok.inj ok)).2.symm (.inr rfl)

theorem pathsHold_apply (h : PathsHold held c) {path : PathAuthority}
    (own : held path) {snapshot : CapacitySnapshotId} {now : Timestamp} {changed : Bool}
    {table : PathTable} (ok : c.paths.apply path snapshot now = .ok (changed, table)) :
    PathsHold held { c with paths := table } := by
  intro n e there
  rcases apply_entry ok there with ⟨before, found, same⟩ | ⟨rfl, same⟩
  · rw [same]
    exact h n before found
  · rw [same]
    exact ⟨rfl, own⟩

theorem pathsHold_applyReplay (h : PathsHold held c) {d : DurableRecord}
    (own : ∀ p ∈ statements d, held p) :
    Op.Ensures (applyReplay d) c fun _ c' => PathsHold held c' := by
  by_cases paths : ∃ s, d = .pathSnapshot s
  · obtain ⟨s, rfl⟩ := paths
    change Op.Ensures (replayPaths s) c _
    unfold replayPaths
    apply Op.ensures_bind
    refine (Op.ensures_each (I := PathsHold held) h fun path mem d hd => ?_).mono ?_
    · apply Op.ensures_get_bind
      refine Op.ensures_lift_bind (fun answer ok => ?_) fun _ _ => hd
      obtain ⟨changed, table⟩ := answer
      exact pathsHold_apply hd (own path mem) ok
    · rintro (e | ⟨⟩) d hd
      · exact hd
      · exact hd
  · by_cases claimants : ∃ r, d = .claimantRegistration r
    · obtain ⟨r, rfl⟩ := claimants
      exact Op.ensures_modify (h.same (by rw [recallClaimant_eq]))
    · exact (within_registries_applyReplay (fun s same => paths ⟨s, same⟩)
        (fun r same => claimants ⟨r, same⟩) c).mono fun _ _ same => h.same same.paths

theorem pathsHold_foldl_recallPath : ∀ {entries : List PathEntry} {c : Coordinator},
    PathsHold held c → (∀ e ∈ entries, held e.path) → PathsHold held (entries.foldl recallPath c)
  | [], _, h, _ => h
  | e :: rest, c, h, own => by
    obtain ⟨here, own⟩ := List.forall_mem_cons.mp own
    refine pathsHold_foldl_recallPath (c := recallPath c e) (fun n found there => ?_) own
    change (c.paths.insert e.path.path e)[n]? = some found at there
    rw [Map.get_insert] at there
    split at there
    · rename_i same
      obtain rfl := Option.some.inj there
      exact ⟨same.symm, here⟩
    · exact h n found there

theorem foldl_recallCapacity_registries : ∀ (entries : List CapacityEntry)
    (acc : Coordinator × Timestamp), SameRegistries acc.1 (entries.foldl recallCapacity acc).1
  | [], _ => ⟨rfl, rfl⟩
  | e :: rest, acc => by
    have turn : SameRegistries acc.1 (recallCapacity acc e).1 := by
      unfold recallCapacity
      dsimp only
      split <;> exact ⟨rfl, rfl⟩
    exact IsTrans.trans _ _ _ turn (foldl_recallCapacity_registries rest _)

end

/-- A snapshot brings back its own path entries, and none besides. -/
theorem applySnapshot_registries {s : SnapshotState} {c : Coordinator}
    (blank : c.claimants = ∅) : ∃ d : Coordinator, d.paths = ∅ ∧
      (c.applySnapshot s).paths = (s.paths.foldl recallPath d).paths ∧
      (c.applySnapshot s).claimants = s.claimants.foldl registered ∅ := by
  unfold applySnapshot
  dsimp only
  have start := foldl_recallCapacity_registries s.capacity
    (({ c with ledger := ∅, paths := ∅, policies := ∅ } : Coordinator), 0)
  generalize (s.capacity.foldl recallCapacity
    (({ c with ledger := ∅, paths := ∅, policies := ∅ } : Coordinator), 0)).1 = d at start
  have none : d.claimants = ∅ := start.claimants.trans blank
  have paths : (s.paths.foldl recallPath d).claimants = ∅ := by
    rw [← none]
    generalize s.paths = entries
    clear start none
    induction entries generalizing d with
    | nil => rfl
    | cons e rest ih => exact ih (recallPath d e)
  refine ⟨d, start.paths, ?_⟩
  generalize s.paths.foldl recallPath d = d₁ at paths
  have policies := registries_foldl (f := recallPolicy) (fun _ _ => ⟨rfl, rfl⟩) s.policies d₁
  generalize s.policies.foldl recallPolicy d₁ = d₂ at policies
  have records := registries_foldl (fun c r => (tables_recallRecord c r).registries) s.reservations
    { d₂ with incarnation := { d₂.incarnation with epoch := s.epoch } }
  generalize s.reservations.foldl recallRecord
    { d₂ with incarnation := { d₂.incarnation with epoch := s.epoch } } = d₃ at records
  have series := registries_foldl (fun c r => (tables_recallSeries c r).registries) s.series d₃
  generalize s.series.foldl recallSeries d₃ = d₄ at series
  have attempts := registries_foldl (fun c a => (tables_rememberAttempt c a).registries) s.attempts
    { d₄ with edges := s.edges }
  generalize s.attempts.foldl rememberAttempt { d₄ with edges := s.edges } = d₅ at attempts
  have fences := registries_foldl (f := recallFence) (fun _ _ => ⟨rfl, rfl⟩) s.fences d₅
  generalize s.fences.foldl recallFence d₅ = d₆ at fences
  have known : d₆.paths = d₁.paths ∧ d₆.claimants = ∅ :=
    ⟨fences.paths.trans (attempts.paths.trans (series.paths.trans (records.paths.trans
        policies.paths))),
      fences.claimants.trans (attempts.claimants.trans (series.claimants.trans
        (records.claimants.trans (policies.claimants.trans paths))))⟩
  have claimants : ∀ (rs : List ClaimantMutation) (d : Coordinator),
      (rs.foldl recallClaimant d).paths = d.paths ∧
        (rs.foldl recallClaimant d).claimants = rs.foldl registered d.claimants := by
    intro rs
    induction rs with
    | nil => exact fun _ => ⟨rfl, rfl⟩
    | cons r rest ih =>
      intro d
      rw [List.foldl_cons, List.foldl_cons, recallClaimant_eq]
      generalize registered d.claimants r = table
      exact ih { d with claimants := table }
  obtain ⟨tablePaths, tableClaimants⟩ := claimants s.claimants d₆
  generalize s.claimants.foldl recallClaimant d₆ = d₇ at tablePaths tableClaimants
  have overcommits := registries_foldl (f := recallOvercommit) (fun _ _ => ⟨rfl, rfl⟩) s.overcommits
    d₇
  generalize s.overcommits.foldl recallOvercommit d₇ = d₈ at overcommits
  have retired := registries_foldl (f := recallRetired) (fun _ _ => ⟨rfl, rfl⟩) s.retired d₈
  exact ⟨retired.paths.trans (overcommits.paths.trans (tablePaths.trans known.1)),
    retired.claimants.trans (overcommits.claimants.trans (tableClaimants.trans (by rw [known.2])))⟩

section

variable {held : PathAuthority → Prop} {c c' : Coordinator} {config : Config} {disk : Disk}
  {faults : List Bool} {x : Contents}

/-- What replay and snapshot have rebuilt, the rebuilding of queues and index leaves alone. -/
theorem recover_registries (w : Written disk x) (h : recover config disk faults = .ok c) :
    ∃ store c₁, (Op.each applyReplay x.tail).exec (startFrom x.base { config, store }) =
      (.ok (), c₁) ∧ SameRegistries c₁ c := by
  obtain ⟨store, c₁, -, -, replayed, indexed⟩ := recover_written w h
  obtain ⟨y, rfl⟩ := (ensures_rebuildIndex_shape c₁.rebuildQueues).of_run indexed
  obtain ⟨a, e, q, queued⟩ := rebuildQueues_shape c₁
  refine ⟨store, c₁, replayed, ?_⟩
  rw [queued]
  exact ⟨rfl, rfl⟩

/-- **Recovery**: the path table says what the directory has stated. -/
theorem pathsHold_recover (w : Written disk x) (h : recover config disk faults = .ok c)
    (own : ∀ p ∈ x.stated, held p) : PathsHold held c := by
  obtain ⟨store, c₁, replayed, same⟩ := recover_registries w h
  have start : PathsHold held (startFrom x.base { config, store }) := by
    unfold startFrom
    cases base : x.base with
    | none => exact fun _ _ no => absurd no (by simp)
    | some s =>
      obtain ⟨d, blank, paths, -⟩ := applySnapshot_registries (s := s)
        (c := ({ config, store } : Coordinator)) rfl
      have none : PathsHold held d := fun _ _ no => absurd no (by simp [blank])
      refine (pathsHold_foldl_recallPath none fun e mem => ?_).same paths
      refine own e.path (List.mem_append_left _ ?_)
      rw [base]
      exact List.mem_map_of_mem mem
  have replay := (Op.ensures_each (I := PathsHold held) start fun d mem _ hd =>
    pathsHold_applyReplay hd fun p there => own p (List.mem_append_right _
      (List.mem_flatMap.mpr ⟨d, mem, there⟩))).of_run replayed
  exact replay.same same.paths

/-- What a move leaves in the directory states what the path table says, and what it has been
told. -/
theorem stated_leaves (m : Move) (h : PathsHold held c) (there : ∀ p ∈ x.stated, held p)
    (own : ∀ now stated changed, m = .paths now stated changed → ∀ p ∈ stated.paths, held p) :
    ∀ p ∈ (m.leaves c x).stated, held p := by
  by_cases snapshot : m = .snapshot
  · subst snapshot
    intro p mem
    have mem : p ∈ c.paths.values.map PathEntry.path :=
      (List.mem_append.mp mem).resolve_right List.not_mem_nil
    obtain ⟨e, listed, rfl⟩ := List.mem_map.mp mem
    obtain ⟨n, found⟩ := Map.mem_values.mp listed
    exact (h n e found).2
  · have leaves : m.leaves c x = { x with tail := x.tail ++ m.logs c } := by
      cases m <;> first | rfl | exact absurd rfl snapshot
    intro p mem
    rw [leaves] at mem
    unfold Contents.stated at mem
    rw [List.flatMap_append, ← List.append_assoc] at mem
    rcases List.mem_append.mp mem with before | logged
    · exact there p before
    · cases m with
      | paths now stated changed =>
        refine own now stated changed rfl p ?_
        simpa [Move.logs, statements] using logged
      | _ => exact absurd logged (by simp [Move.logs, statements])

/-! ## Claimants -/

theorem claimants_applyReplay (d : DurableRecord) (c : Coordinator) :
    Op.Ensures (applyReplay d) c fun r c' =>
      r = .ok () → c'.claimants = (registrations d).foldl registered c.claimants := by
  by_cases claimants : ∃ r, d = .claimantRegistration r
  · obtain ⟨r, rfl⟩ := claimants
    change Op.Ensures (modify fun c => c.recallClaimant r) c _
    refine Op.ensures_modify fun _ => ?_
    have one : registrations (.claimantRegistration r) = [r] := rfl
    rw [one, List.foldl_cons, List.foldl_nil, recallClaimant_eq]
  · have none : registrations d = [] := by
      cases d with
      | claimantRegistration r => exact absurd ⟨r, rfl⟩ claimants
      | _ => rfl
    rw [none]
    by_cases paths : ∃ s, d = .pathSnapshot s
    · obtain ⟨s, rfl⟩ := paths
      have table : Op.Within (fun c c' : Coordinator => c'.claimants = c.claimants)
          (replayPaths s) := by
        have : IsPreorder Coordinator (fun c c' : Coordinator => c'.claimants = c.claimants) :=
          { refl := fun _ => rfl
            trans := fun _ _ _ h h' => h'.trans h }
        unfold replayPaths
        refine Op.within_bind (Op.within_each (fun path => ?_) _) fun _ => ?_
        · refine Op.within_bind Op.within_get fun _ => ?_
          refine Op.within_bind (Op.within_lift _) fun _ => ?_
          exact Op.within_modify fun _ => rfl
        · exact Op.within_modify fun _ => rfl
      exact (table c).mono fun _ _ same _ => same
    · exact (within_registries_applyReplay (fun s same => paths ⟨s, same⟩)
        (fun r same => claimants ⟨r, same⟩) c).mono fun _ _ same _ => same.claimants

theorem claimants_each : ∀ {ds : List DurableRecord} {c c' : Coordinator},
    (Op.each applyReplay ds).exec c = (.ok (), c') →
      c'.claimants = (ds.flatMap registrations).foldl registered c.claimants
  | [], _, _, run => by
    obtain rfl := (Prod.mk.inj run).2
    rfl
  | d :: ds, c, c', run => by
    obtain ⟨⟨⟩, c₁, first, later⟩ := Op.exec_bind_ok run
    have here := (claimants_applyReplay d c).of_run first rfl
    rw [claimants_each later, here, List.flatMap_cons, List.foldl_append]

/-- **Recovery** brings back the registry of the directory. -/
theorem claimants_recover (w : Written disk x) (h : recover config disk faults = .ok c) :
    c.claimants = x.claimants := by
  obtain ⟨store, c₁, replayed, same⟩ := recover_registries w h
  have start : (startFrom x.base { config, store }).claimants =
      ((x.base.map SnapshotState.claimants).getD []).foldl registered ∅ := by
    unfold startFrom
    cases base : x.base with
    | none => rfl
    | some s =>
      obtain ⟨-, -, -, claimants⟩ := applySnapshot_registries (s := s)
        (c := ({ config, store } : Coordinator)) rfl
      exact claimants
  rw [same.claimants, claimants_each replayed, start]
  unfold Contents.claimants
  rw [List.foldl_append]

/-- The registry that a move leads to. -/
theorem claimants_takes (idle : Idle c) {m : Move} (takes : m.Takes c c') :
    c'.claimants = ((m.logs c).flatMap registrations).foldl registered c.claimants := by
  have tables := tables_takes idle takes
  cases m with
  | claimant registration =>
    obtain ⟨-, newer, c₁, appended, rfl⟩ := takes
    obtain ⟨faults, rfl⟩ := appended.shape
    have turn : registered c.claimants registration =
        c.claimants.insert registration.claimant registration.generation := if_pos newer
    have one : ((Move.claimant registration).logs c).flatMap registrations = [registration] := rfl
    rw [one, List.foldl_cons, List.foldl_nil, turn]
    rfl
  | _ => exact tables.claimants

/-- **The registry** of a coordinator is the one its directory brings back. -/
theorem claimants_leaves (idle : Idle c) {m : Move} (takes : m.Takes c c')
    (h : c.claimants = x.claimants) : c'.claimants = (m.leaves c x).claimants := by
  by_cases snapshot : m = .snapshot
  · subst snapshot
    have same : c'.claimants = c.claimants := claimants_takes idle takes
    refine Map.ext_get fun k => ?_
    refine Option.ext fun g => ?_
    rw [same]
    have read := @foldl_registered c.claimants.toList ∅
      (Map.pairwise_toList c.claimants) (fun _ _ => Map.get_empty _) k g
    unfold Contents.claimants
    rw [List.foldl_append]
    refine Iff.trans ?_ read.symm
    rw [Map.mem_toList]
    exact ⟨.inl, fun h => h.resolve_right (by simp)⟩
  · have leaves : m.leaves c x = { x with tail := x.tail ++ m.logs c } := by
      cases m <;> first | rfl | exact absurd rfl snapshot
    rw [leaves, claimants_takes idle takes, h]
    unfold Contents.claimants
    rw [List.flatMap_append, ← List.append_assoc, ← List.foldl_append]

end

/-! ## Ingestions -/

theorem pathsHold_applyPaths {held : PathAuthority → Prop} (snapshot : CapacitySnapshotId)
    (now : Timestamp) : ∀ {paths : List PathAuthority} {c : Coordinator}, PathsHold held c →
      (∀ p ∈ paths, held p) →
        Op.Ensures (applyPaths snapshot now paths) c fun _ c' => PathsHold held c'
  | [], _, h, _ => h
  | path :: rest, c, h, own => by
    obtain ⟨here, own⟩ := List.forall_mem_cons.mp own
    unfold applyPaths
    apply Op.ensures_get_bind
    refine Op.ensures_lift_bind (fun answer ok => ?_) fun _ _ => h
    obtain ⟨changed, table⟩ := answer
    apply Op.ensures_modify_bind
    apply Op.ensures_bind
    refine (pathsHold_applyPaths snapshot now (pathsHold_apply h here ok) own).mono ?_
    rintro (e | names) d hd
    · exact hd
    · exact hd

/-- The table after a statement says what was stated. -/
theorem apply_stated {table table' : PathTable} {path : PathAuthority}
    {snapshot : CapacitySnapshotId} {now : Timestamp} {changed : Bool}
    (ok : table.apply path snapshot now = .ok (changed, table')) :
    ∃ e, table'[path.path]? = some e ∧ e.path.generation = path.generation ∧
      e.path.components = path.components := by
  have inserted : ∀ entry : PathEntry, table' = table.insert path.path entry →
      entry.path.generation = path.generation → entry.path.components = path.components →
        ∃ e, table'[path.path]? = some e ∧ e.path.generation = path.generation ∧
          e.path.components = path.components := by
    rintro entry rfl generation components
    exact ⟨entry, by rw [Map.get_insert, if_pos rfl], generation, components⟩
  unfold PathTable.apply at ok
  obtain ⟨⟨⟩, -, ok⟩ := Result.bind_eq_ok.mp ok
  cases found : table[path.path]? with
  | none =>
    rw [found] at ok
    exact inserted _ (Prod.mk.inj (Except.ok.inj ok)).2.symm rfl rfl
  | some entry =>
    rw [found] at ok
    dsimp only at ok
    split at ok
    · rename_i generation
      split at ok
      · rename_i same
        have components : entry.path.components = path.components := by
          unfold PathAuthority.same at same
          rw [decide_eq_true_eq] at same
          exact (congrArg PathAuthority.components same).symm
        split at ok
        · obtain ⟨-, rfl⟩ := Prod.mk.inj (Except.ok.inj ok)
          exact ⟨entry, found, generation.symm, components⟩
        · exact inserted _ (Prod.mk.inj (Except.ok.inj ok)).2.symm generation.symm components
      · exact absurd ok (by simp [throw, throwThe, MonadExceptOf.throw])
    · split at ok
      · exact absurd ok (by simp [throw, throwThe, MonadExceptOf.throw])
      · exact inserted _ (Prod.mk.inj (Except.ok.inj ok)).2.symm rfl rfl

/-- A statement on another path does not matter. -/
theorem apply_other {table table' : PathTable} {path : PathAuthority}
    {snapshot : CapacitySnapshotId} {now : Timestamp} {changed : Bool}
    (ok : table.apply path snapshot now = .ok (changed, table')) {n : PathName}
    (other : n ≠ path.path) : table'[n]? = table[n]? := by
  have inserted : ∀ entry : PathEntry, table' = table.insert path.path entry →
      table'[n]? = table[n]? := by
    rintro entry rfl
    exact Map.get_insert_ne other
  unfold PathTable.apply at ok
  obtain ⟨⟨⟩, -, ok⟩ := Result.bind_eq_ok.mp ok
  cases found : table[path.path]? with
  | none =>
    rw [found] at ok
    exact inserted _ (Prod.mk.inj (Except.ok.inj ok)).2.symm
  | some entry =>
    rw [found] at ok
    dsimp only at ok
    split at ok
    · split at ok
      · split at ok
        · obtain ⟨-, rfl⟩ := Prod.mk.inj (Except.ok.inj ok)
          rfl
        · exact inserted _ (Prod.mk.inj (Except.ok.inj ok)).2.symm
      · exact absurd ok (by simp [throw, throwThe, MonadExceptOf.throw])
    · split at ok
      · exact absurd ok (by simp [throw, throwThe, MonadExceptOf.throw])
      · exact inserted _ (Prod.mk.inj (Except.ok.inj ok)).2.symm

theorem applyPaths_other (snapshot : CapacitySnapshotId) (now : Timestamp) {n : PathName} :
    ∀ {paths : List PathAuthority} {c : Coordinator}, (∀ p ∈ paths, n ≠ p.path) →
      Op.Ensures (applyPaths snapshot now paths) c fun _ c' => c'.paths[n]? = c.paths[n]?
  | [], _, _ => rfl
  | path :: rest, c, other => by
    obtain ⟨here, other⟩ := List.forall_mem_cons.mp other
    unfold applyPaths
    apply Op.ensures_get_bind
    refine Op.ensures_lift_bind (fun answer ok => ?_) fun _ _ => rfl
    obtain ⟨changed, table⟩ := answer
    apply Op.ensures_modify_bind
    apply Op.ensures_bind
    refine (applyPaths_other snapshot now other).mono ?_
    rintro (e | names) d same
    · exact same.trans (apply_other ok here)
    · exact same.trans (apply_other ok here)

/-- **An ingestion** that applies all its statements leaves a table that says them. -/
theorem applyPaths_stated (snapshot : CapacitySnapshotId) (now : Timestamp) :
    ∀ {paths : List PathAuthority} {c : Coordinator}, (paths.map PathAuthority.path).Nodup →
      Op.Ensures (applyPaths snapshot now paths) c fun r c' => ∀ changed, r = .ok changed →
        ∀ p ∈ paths, ∃ e, c'.paths[p.path]? = some e ∧ e.path.generation = p.generation ∧
          e.path.components = p.components
  | [], _, _ => fun _ _ _ no => absurd no List.not_mem_nil
  | path :: rest, c, nodup => by
    obtain ⟨fresh, nodup⟩ := List.nodup_cons.mp nodup
    have other : ∀ p ∈ rest, path.path ≠ p.path := fun p mem same =>
      fresh (same ▸ List.mem_map_of_mem mem)
    unfold applyPaths
    apply Op.ensures_get_bind
    refine Op.ensures_lift_bind (fun answer ok => ?_) fun _ _ _ no => ?_
    swap
    · cases no
    obtain ⟨changed, table⟩ := answer
    apply Op.ensures_modify_bind
    refine Op.ensures_bind_run fun r d run => ?_
    have later := (applyPaths_stated snapshot now nodup).of_run run
    have kept := (applyPaths_other snapshot now other).of_run run
    rcases r with e | names
    · intro _ no
      cases no
    · intro _ _ p mem
      rcases List.mem_cons.mp mem with rfl | mem
      · obtain ⟨e, there, entry⟩ := apply_stated ok
        exact ⟨e, kept.trans there, entry⟩
      · exact later names rfl p mem

theorem nodup_of_sorted {α : Type} [LinearOrder α] : ∀ {xs : List α},
    xs.Pairwise (· ≤ ·) → hasAdjacentEqual xs = false → xs.Nodup
  | [], _, _ => List.nodup_nil
  | [a], _, _ => List.nodup_singleton a
  | a :: b :: rest, rising, distinct => by
    obtain ⟨above, rising⟩ := List.pairwise_cons.mp rising
    unfold hasAdjacentEqual at distinct
    obtain ⟨apart, distinct⟩ := Bool.or_eq_false_iff.mp distinct
    refine List.nodup_cons.mpr ⟨fun mem => ?_, nodup_of_sorted rising distinct⟩
    have lt : a < b := lt_of_le_of_ne (above b List.mem_cons_self) (of_decide_eq_false apart)
    rcases List.mem_cons.mp mem with same | mem
    · exact absurd same (ne_of_lt lt)
    · exact absurd ((List.pairwise_cons.mp rising).1 a mem) (not_le.mpr lt)

/-- The checks of a path snapshot let no path be named twice. -/
theorem nodup_of_checked {c : Coordinator} {stated : PathAuthoritySnapshot}
    (checked : c.checkPathSnapshot stated = .ok ()) :
    (stated.paths.map PathAuthority.path).Nodup := by
  unfold checkPathSnapshot at checked
  obtain ⟨⟨⟩, -, checked⟩ := Result.bind_eq_ok.mp checked
  obtain ⟨⟨⟩, -, checked⟩ := Result.bind_eq_ok.mp checked
  obtain ⟨⟨⟩, -, checked⟩ := Result.bind_eq_ok.mp checked
  obtain ⟨⟨⟩, -, distinct⟩ := Result.bind_eq_ok.mp checked
  have nodup := nodup_of_sorted (List.pairwise_insertionSort _ _) (refuse_eq_ok.mp distinct)
  exact (sorted_perm _).nodup_iff.mp nodup

/-- **An ingestion of paths** that passes its checks ends with the table it has applied. -/
theorem ingestPaths_paths {c : Coordinator} (idle : Idle c) {now : Timestamp}
    {stated : PathAuthoritySnapshot} {context : RequestContext}
    (valid : c.validateContext context false = .ok ())
    (checked : c.checkPathSnapshot stated = .ok ()) :
    ((ingestPaths now stated context).exec c).2.paths =
      ((applyPaths stated.id now stated.paths).exec c).2.paths := by
  have settled : ∀ {m : Method Unit} {d : Coordinator}, Idle d → Op.Within (Runs Housekeeping) m →
      Op.Ensures m d fun _ d' => d'.paths = d.paths := by
    intro m d dIdle within
    refine (within d).mono fun _ d' runs => ?_
    refine ((runs dIdle).2.invariant_idle dIdle (I := fun e => e.paths = d.paths) ?_ rfl).2
    rintro e e' m eIdle same own takes
    have tables := tables_takes eIdle takes
    cases m <;> first | exact absurd own id | exact tables.paths.trans same
  have ends : Op.Ensures (ingestPaths now stated context) c fun _ c' => c'.paths =
      ((applyPaths stated.id now stated.paths).exec c).2.paths := by
    unfold ingestPaths
    apply Op.ensures_get_bind
    rw [valid, checked]
    refine Op.ensures_lift_bind (fun _ _ => ?_) fun _ no => absurd no (by simp)
    refine Op.ensures_lift_bind (fun _ _ => ?_) fun _ no => absurd no (by simp)
    refine Op.ensures_bind_run fun r c₁ run => ?_
    rw [run]
    rcases r with e | changed
    · rfl
    refine Op.ensures_ite (fun _ => ?_) fun _ => rfl
    apply Op.ensures_bind
    apply Op.ensures_discard
    refine (ensures_appendRecord _ c₁).mono ?_
    rintro (e | sequence) c₂ spec
    · obtain ⟨faults, rfl⟩ := spec
      rfl
    · obtain ⟨-, appended⟩ := spec
      have takes : (Move.paths now stated changed).Takes c (c₂.sawPaths stated) :=
        ⟨checked, c₁, c₂, run, appended, rfl⟩
      apply Op.ensures_modify_bind
      refine (settled (idle_takes idle takes) ?_).mono fun _ _ same =>
        same.trans appended.tables.paths
      unfold settlePaths
      exact Op.within_bind (within_refreshApplicability (fun _ h => h) now true) fun _ =>
        within_fenceHolds (fun _ h => h.housekeeping) now _ _
  exact ends

end Coordinator

end Brf
