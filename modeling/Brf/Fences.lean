import Brf.Acquisition
import Brf.Claimants

/-!
# Fences

A fence is journaled, and the tables of fenced boots and claimants come back from the directory: from
the records of the journal, and from a snapshot, which exports the table of boots.

* `Contents.fences x`: the fences that a directory brings back.
* `Bars c fences`: the boots that `c` has fenced are those of the list, each under its own name.
* `Eases c d`: the fences are the same, and no hold has been granted: every live hold was live.
* `Excludes c context`: the boot or the claimant of the context is fenced.
* `Unfenced c`: no live hold belongs to a fenced boot.

Results: `recounts_recover` and `bars_leaves` (the table of boots is the one the directory brings
back), `eases_takes` (all moves but two neither fence nor grant), `ensures_perform_refused`,
`unfenced_perform` (the step lemma for holds), and `fences_last`.

Not here: fences of sessions, which release holds and are not kept; fences of claimants across a
restart, since a snapshot does not export their table.
-/

namespace Brf

open Brf.Lib

/-! ## What a directory says -/

/-- The fences of a record of the journal. -/
def fencesOf : DurableRecord → List FenceRecord
  | .fence record => [record]
  | _ => []

/-- The fences that a directory brings back. -/
def Contents.fences (x : Contents) : List FenceRecord :=
  (x.base.map SnapshotState.fences).getD [] ++ x.tail.flatMap fencesOf

/-- The boot is fenced by one of the list. -/
def Barred (fences : List FenceRecord) (boot : PublisherBootId) : Prop :=
  ∃ f ∈ fences, f.boot = boot ∧ boot.isNil = false

theorem barred_append {fences more : List FenceRecord} {boot : PublisherBootId} :
    Barred (fences ++ more) boot ↔ Barred fences boot ∨ Barred more boot := by
  simp only [Barred, List.mem_append, or_and_right, exists_or]

namespace Coordinator

/-- The boots that are fenced are those of the list, and each fence is filed under its boot. -/
structure Bars (c : Coordinator) (fences : List FenceRecord) : Prop where
  filed : ∀ (boot : PublisherBootId) (f : FenceRecord), c.fencedBoots[boot]? = some f → f.boot = boot
  barred : ∀ boot : PublisherBootId, (c.fencedBoots[boot]?).isSome = true ↔ Barred fences boot

section

variable {c d : Coordinator} {fences : List FenceRecord}

theorem Bars.same (h : Bars c fences) (boots : d.fencedBoots = c.fencedBoots) : Bars d fences :=
  ⟨by rw [boots]; exact h.filed, by rw [boots]; exact h.barred⟩

theorem bars_blank (blank : c.fencedBoots = ∅) : Bars c [] :=
  ⟨fun _ _ no => absurd no (by simp [blank]), fun _ => by simp [blank, Barred]⟩

/-- One fence more. -/
theorem bars_recallFence (h : Bars c fences) (fence : FenceRecord) :
    Bars (c.recallFence fence) (fences ++ [fence]) := by
  cases named : fence.boot.isNil with
  | true =>
    have same : (c.recallFence fence).fencedBoots = c.fencedBoots := by
      unfold recallFence
      simp [named]
    refine ⟨by rw [same]; exact h.filed, fun boot => ?_⟩
    rw [same, h.barred, barred_append]
    refine ⟨.inl, fun either => either.resolve_right ?_⟩
    rintro ⟨f, mem, rfl, own⟩
    obtain rfl := List.mem_singleton.mp mem
    exact absurd (named.symm.trans own) (by decide)
  | false =>
    have table : (c.recallFence fence).fencedBoots = c.fencedBoots.insert fence.boot fence := by
      unfold recallFence
      simp [named]
    refine ⟨fun boot f there => ?_, fun boot => ?_⟩
    · rw [table, Map.get_insert] at there
      split at there
      · rename_i same
        obtain rfl := Option.some.inj there
        exact same.symm
      · exact h.filed boot f there
    · rw [table, Map.get_insert, barred_append, ← h.barred]
      by_cases same : boot = fence.boot
      · rw [if_pos same]
        exact ⟨fun _ => .inr ⟨fence, List.mem_singleton_self _, same.symm, by rw [same, named]⟩,
          fun _ => rfl⟩
      · rw [if_neg same]
        refine ⟨.inl, fun either => either.resolve_right ?_⟩
        rintro ⟨f, mem, other, -⟩
        obtain rfl := List.mem_singleton.mp mem
        exact same other.symm

theorem bars_foldl_recallFence : ∀ (more : List FenceRecord) {c : Coordinator}
    {fences : List FenceRecord}, Bars c fences → Bars (more.foldl recallFence c) (fences ++ more)
  | [], _, _, h => by rwa [List.append_nil]
  | fence :: more, c, fences, h => by
    have rest := bars_foldl_recallFence more (bars_recallFence h fence)
    rwa [List.append_assoc, List.singleton_append] at rest

/-! ## Replay -/

/-- The fences and the holds are the same. -/
structure SameFences (c d : Coordinator) : Prop where
  boots : d.fencedBoots = c.fencedBoots
  claimants : d.fencedClaimants = c.fencedClaimants
  holds : d.holds = c.holds

instance : IsPreorder Coordinator SameFences where
  refl _ := ⟨rfl, rfl, rfl⟩
  trans _ _ _ h h' := ⟨h'.boots.trans h.boots, h'.claimants.trans h.claimants, h'.holds.trans h.holds⟩

theorem SameFences.refl (c : Coordinator) : SameFences c c := ⟨rfl, rfl, rfl⟩

theorem SameFences.trans {a b c : Coordinator} (h : SameFences a b) (h' : SameFences b c) :
    SameFences a c := IsTrans.trans _ _ _ h h'

theorem sameFences_foldl {α : Type} {f : Coordinator → α → Coordinator}
    (turn : ∀ c x, SameFences c (f c x)) :
    ∀ (xs : List α) (c : Coordinator), SameFences c (xs.foldl f c)
  | [], c => .refl c
  | x :: xs, c => (turn c x).trans (sameFences_foldl turn xs (f c x))

theorem sameFences_moveRecord (c : Coordinator) (r next : ReservationRecord) :
    SameFences c (c.moveRecord r next) := by
  obtain ⟨a, e, q, l, n, shape⟩ := moveRecord_shape c r next
  rw [shape]
  exact ⟨rfl, rfl, rfl⟩

theorem sameFences_recallRecord (c : Coordinator) (r : ReservationRecord) :
    SameFences c (c.recallRecord r) := by
  obtain ⟨a, e, q, shape⟩ := recallRecord_shape c r
  rw [shape]
  exact ⟨rfl, rfl, rfl⟩

theorem sameFences_moveStored (next : ReservationRecord → ReservationRecord) (c : Coordinator)
    (key : ReservationKey) : SameFences c (moveStored next c key) := by
  unfold moveStored
  split
  · exact .refl c
  · exact sameFences_moveRecord c _ _

theorem sameFences_recallAttempt (c : Coordinator) (attempt : Option AttemptMutation) :
    SameFences c (c.recallAttempt attempt) := by
  cases attempt with
  | none => exact .refl c
  | some a => exact ⟨rfl, rfl, rfl⟩

theorem sameFences_replayRetire (c : Coordinator) (key : ReservationKey) :
    SameFences c (c.replayRetire key) := by
  unfold replayRetire
  split <;> exact ⟨rfl, rfl, rfl⟩

theorem within_fences_replayReservation (mutation : ReservationMutation) :
    Op.Within SameFences (replayReservation mutation) := by
  unfold replayReservation
  refine Op.within_bind (fun c => ?_) fun _ => ?_
  · unfold replaySupersession
    refine Op.ensures_ite (fun _ => ?_) fun _ => SameFences.refl c
    apply Op.ensures_get_bind
    split
    · exact SameFences.refl c
    · rename_i r _
      exact Op.ensures_set (sameFences_moveRecord c r _)
  refine Op.within_bind (Op.within_modify fun _ => ⟨rfl, rfl, rfl⟩) fun _ => ?_
  refine Op.within_bind (Op.within_modify fun c =>
    sameFences_foldl sameFences_recallRecord _ c) fun _ => ?_
  refine Op.within_bind (Op.within_modify fun c =>
    sameFences_foldl (f := recallSeries) (fun _ _ => ⟨rfl, rfl, rfl⟩) _ c) fun _ => ?_
  refine Op.within_bind (Op.within_each (fun companion c => ?_) _) fun _ => ?_
  · unfold replayCompanion
    apply Op.ensures_get_bind
    split
    · exact SameFences.refl c
    · rename_i r _
      exact Op.ensures_set (sameFences_moveRecord c r _)
  · exact Op.within_modify fun c => sameFences_recallAttempt c _

theorem within_fences_replayState (mutation : StateMutation) :
    Op.Within SameFences (replayState mutation) := by
  intro c
  unfold replayState
  apply Op.ensures_get_bind
  split
  · exact SameFences.refl c
  · rename_i r _
    exact Op.ensures_set ((sameFences_moveRecord c r _).trans (sameFences_recallAttempt _ _))

theorem within_fences_replayCapacity (capacity : CapacityMutation) :
    Op.Within SameFences (replayCapacity capacity) := by
  unfold replayCapacity
  refine Op.within_bind (Op.within_each (fun resource => ?_) _) fun _ => ?_
  · refine Op.within_bind Op.within_get fun _ => ?_
    refine Op.within_bind (Op.within_lift _) fun _ => ?_
    exact Op.within_modify fun _ => ⟨rfl, rfl, rfl⟩
  refine Op.within_bind (Op.within_each (fun name => ?_) _) fun _ => ?_
  · refine Op.within_get_bind fun c => ?_
    split
    · exact ⟨rfl, rfl, rfl⟩
    · exact Op.within_refuseIf _ _ c
  · exact Op.within_modify fun _ => ⟨rfl, rfl, rfl⟩

/-- **Replay** changes fences only by the record of one. -/
theorem within_fences_applyReplay {d : DurableRecord} (other : ∀ f, d ≠ .fence f) :
    Op.Within SameFences (applyReplay d) := by
  cases d with
  | fence f => exact absurd rfl (other f)
  | pathSnapshot s =>
    change Op.Within SameFences (replayPaths s)
    unfold replayPaths
    refine Op.within_bind (Op.within_each (fun path => ?_) _) fun _ => ?_
    · refine Op.within_bind Op.within_get fun _ => ?_
      refine Op.within_bind (Op.within_lift _) fun _ => ?_
      exact Op.within_modify fun _ => ⟨rfl, rfl, rfl⟩
    · exact Op.within_modify fun _ => ⟨rfl, rfl, rfl⟩
  | claimantRegistration r =>
    refine Op.within_modify fun c => ?_
    rw [recallClaimant_eq]
    exact ⟨rfl, rfl, rfl⟩
  | fabricBoot epoch =>
    refine Op.within_modify fun c => ?_
    split
    · exact ⟨rfl, rfl, rfl⟩
    · exact ⟨rfl, rfl, rfl⟩
  | capacitySnapshot capacity => exact within_fences_replayCapacity capacity
  | policyRecord policy =>
    refine Op.within_bind Op.within_get fun _ => ?_
    refine Op.within_bind (Op.within_lift _) fun _ => ?_
    exact Op.within_modify fun _ => ⟨rfl, rfl, rfl⟩
  | reservationCommit mutation => exact within_fences_replayReservation mutation
  | reservationAmend mutation => exact within_fences_replayReservation mutation
  | reservationSeries mutation => exact within_fences_replayReservation mutation
  | reservationState mutation => exact within_fences_replayState mutation
  | reservationApplicability mutation =>
    intro c
    change Op.Ensures (replayApplicability mutation) c _
    unfold replayApplicability
    apply Op.ensures_get_bind
    split <;> exact ⟨rfl, rfl, rfl⟩
  | attemptOutcome attempt => exact Op.within_modify fun _ => ⟨rfl, rfl, rfl⟩
  | overcommit mutation => exact Op.within_modify fun _ => ⟨rfl, rfl, rfl⟩
  | retire mutation => exact Op.within_modify (sameFences_foldl sameFences_replayRetire _)

/-- What replay says of fences: those of the records, and it grants no hold. -/
def Recounts (fences : List FenceRecord) (c : Coordinator) : Prop := Bars c fences ∧ c.holds = ∅

theorem recounts_applyReplay (h : Recounts fences c) (d : DurableRecord) :
    Op.Ensures (applyReplay d) c fun r c' => r = .ok () → Recounts (fences ++ fencesOf d) c' := by
  by_cases fence : ∃ f, d = .fence f
  · obtain ⟨f, rfl⟩ := fence
    exact Op.ensures_modify fun _ => ⟨bars_recallFence h.1 f, h.2⟩
  · have none : fencesOf d = [] := by
      cases d with
      | fence f => exact absurd ⟨f, rfl⟩ fence
      | _ => rfl
    rw [none, List.append_nil]
    refine (within_fences_applyReplay (fun f same => fence ⟨f, same⟩) c).mono fun _ _ same _ => ?_
    exact ⟨h.1.same same.boots, same.holds.trans h.2⟩

theorem recounts_each : ∀ {ds : List DurableRecord} {fences : List FenceRecord} {c c' : Coordinator},
    Recounts fences c → (Op.each applyReplay ds).exec c = (.ok (), c') →
      Recounts (fences ++ ds.flatMap fencesOf) c'
  | [], _, _, _, h, run => by
    obtain rfl := (Prod.mk.inj run).2
    rwa [List.flatMap_nil, List.append_nil]
  | d :: ds, fences, c, c', h, run => by
    obtain ⟨⟨⟩, c₁, first, later⟩ := Op.exec_bind_ok run
    have here := (recounts_applyReplay h d).of_run first rfl
    have rest := recounts_each here later
    rwa [List.append_assoc] at rest

theorem sameFences_foldl_recallCapacity : ∀ (entries : List CapacityEntry)
    (acc : Coordinator × Timestamp), SameFences acc.1 (entries.foldl recallCapacity acc).1
  | [], acc => .refl acc.1
  | e :: rest, acc => by
    have turn : SameFences acc.1 (recallCapacity acc e).1 := by
      unfold recallCapacity
      dsimp only
      split <;> exact ⟨rfl, rfl, rfl⟩
    exact turn.trans (sameFences_foldl_recallCapacity rest _)

/-- A snapshot brings back its own fences. -/
theorem recounts_applySnapshot {s : SnapshotState} (h : Recounts [] c) :
    Recounts s.fences (c.applySnapshot s) := by
  unfold applySnapshot
  dsimp only
  have start := sameFences_foldl_recallCapacity s.capacity
    (({ c with ledger := ∅, paths := ∅, policies := ∅ } : Coordinator), 0)
  generalize (s.capacity.foldl recallCapacity
    (({ c with ledger := ∅, paths := ∅, policies := ∅ } : Coordinator), 0)).1 = d at start
  have first : SameFences c d := ⟨start.boots, start.claimants, start.holds⟩
  have paths := first.trans (sameFences_foldl (f := recallPath) (fun _ _ => ⟨rfl, rfl, rfl⟩) s.paths d)
  generalize s.paths.foldl recallPath d = d₁ at paths
  have policies := paths.trans
    (sameFences_foldl (f := recallPolicy) (fun _ _ => ⟨rfl, rfl, rfl⟩) s.policies d₁)
  generalize s.policies.foldl recallPolicy d₁ = d₂ at policies
  have epoch : SameFences c { d₂ with incarnation := { d₂.incarnation with epoch := s.epoch } } :=
    policies.trans ⟨rfl, rfl, rfl⟩
  have records := epoch.trans (sameFences_foldl sameFences_recallRecord s.reservations _)
  generalize s.reservations.foldl recallRecord
    { d₂ with incarnation := { d₂.incarnation with epoch := s.epoch } } = d₃ at records
  have series := records.trans
    (sameFences_foldl (f := recallSeries) (fun _ _ => ⟨rfl, rfl, rfl⟩) s.series d₃)
  generalize s.series.foldl recallSeries d₃ = d₄ at series
  have edges : SameFences c { d₄ with edges := s.edges } := series.trans ⟨rfl, rfl, rfl⟩
  have attempts := edges.trans
    (sameFences_foldl (f := rememberAttempt) (fun _ _ => ⟨rfl, rfl, rfl⟩) s.attempts _)
  generalize s.attempts.foldl rememberAttempt { d₄ with edges := s.edges } = d₅ at attempts
  have held : (s.fences.foldl recallFence d₅).holds = ∅ := by
    have none : d₅.holds = ∅ := attempts.holds.trans h.2
    revert none
    clear attempts
    generalize s.fences = fences
    induction fences generalizing d₅ with
    | nil => exact id
    | cons f rest ih => exact fun none => ih (d₅.recallFence f) none
  have barred : Bars (s.fences.foldl recallFence d₅) s.fences :=
    bars_foldl_recallFence s.fences (h.1.same attempts.boots)
  generalize s.fences.foldl recallFence d₅ = d₆ at held barred
  have claimants := sameFences_foldl (f := recallClaimant)
    (fun c r => by rw [recallClaimant_eq]; exact ⟨rfl, rfl, rfl⟩) s.claimants d₆
  generalize s.claimants.foldl recallClaimant d₆ = d₇ at claimants
  have overcommits := claimants.trans
    (sameFences_foldl (f := recallOvercommit) (fun _ _ => ⟨rfl, rfl, rfl⟩) s.overcommits d₇)
  generalize s.overcommits.foldl recallOvercommit d₇ = d₈ at overcommits
  have retired := overcommits.trans
    (sameFences_foldl (f := recallRetired) (fun _ _ => ⟨rfl, rfl, rfl⟩) s.retired d₈)
  exact ⟨barred.same retired.boots, retired.holds.trans held⟩

/-- **Recovery** brings back the fenced boots of the directory, and no hold. -/
theorem recounts_recover {config : Config} {disk : Disk} {faults : List Bool} {x : Contents}
    (w : Written disk x) (h : recover config disk faults = .ok c) : Recounts x.fences c := by
  obtain ⟨store, c₁, -, -, replayed, indexed⟩ := recover_written w h
  obtain ⟨y, rfl⟩ := (ensures_rebuildIndex_shape c₁.rebuildQueues).of_run indexed
  obtain ⟨a, e, q, queued⟩ := rebuildQueues_shape c₁
  have start : Recounts ((x.base.map SnapshotState.fences).getD [])
      (startFrom x.base { config, store }) := by
    unfold startFrom
    cases x.base with
    | none => exact ⟨bars_blank rfl, rfl⟩
    | some s => exact recounts_applySnapshot ⟨bars_blank rfl, rfl⟩
  obtain ⟨barred, held⟩ := recounts_each start replayed
  rw [queued]
  exact ⟨barred.same rfl, held⟩

end

/-! ## Moves -/

/-- The fences are the same, and no hold has been granted: a live hold was live, as it is. -/
structure Eases (c d : Coordinator) : Prop where
  boots : d.fencedBoots = c.fencedBoots
  claimants : d.fencedClaimants = c.fencedClaimants
  live : ∀ (id : HoldId) (h : HoldRecord), d.holds[id]? = some h → h.released = false →
    c.holds[id]? = some h

instance : IsPreorder Coordinator Eases where
  refl _ := ⟨rfl, rfl, fun _ _ there _ => there⟩
  trans _ _ _ h h' := ⟨h'.boots.trans h.boots, h'.claimants.trans h.claimants,
    fun id hold there own => h.live id hold (h'.live id hold there own) own⟩

theorem Eases.refl (c : Coordinator) : Eases c c := ⟨rfl, rfl, fun _ _ there _ => there⟩

theorem Eases.trans {a b c : Coordinator} (h : Eases a b) (h' : Eases b c) : Eases a c :=
  IsTrans.trans _ _ _ h h'

theorem SameFences.eases {c d : Coordinator} (h : SameFences c d) : Eases c d :=
  ⟨h.boots, h.claimants, fun _ _ there _ => h.holds ▸ there⟩

theorem Appended.fences {d : DurableRecord} {c c₁ : Coordinator} (h : Appended d c c₁) :
    SameFences c c₁ := by
  obtain ⟨faults, rfl⟩ := h.shape
  exact ⟨rfl, rfl, rfl⟩

section

variable {c d : Coordinator}

/-- A hold is put in the place of one with its identity, released. -/
theorem eases_insert {id : HoldId} {hold : HoldRecord} (released : hold.released = true) :
    Eases c { c with holds := c.holds.insert id hold } := by
  refine ⟨rfl, rfl, fun other h there own => ?_⟩
  dsimp only at there
  rw [Map.get_insert] at there
  split at there
  · obtain rfl := Option.some.inj there
    exact absurd (released.symm.trans own) (by decide)
  · exact there

/-- **Release of a hold**: it is not live afterwards, and nothing else is new. -/
theorem ensures_releaseHold_eases (now : Timestamp) (id : HoldId) (reason : Text) :
    Op.Ensures (releaseHold now id reason) c fun _ d =>
      Eases c d ∧ ∀ h, d.holds[id]? = some h → h.released = true := by
  unfold releaseHold
  apply Op.ensures_get_bind
  cases there : c.holds[id]? with
  | none => exact ⟨.refl c, fun h found => absurd (there.symm.trans found) (by simp)⟩
  | some hold =>
    refine Op.ensures_ite (fun own => ?_) fun _ => ?_
    · refine ⟨.refl c, fun h found => ?_⟩
      obtain rfl := Option.some.inj (there.symm.trans found)
      exact own
    · apply Op.ensures_modify_bind
      have gone : Eases c
          { c with holds := c.holds.insert id (hold.release now (sanitizeReason reason)) } ∧
          ∀ h, (c.holds.insert id (hold.release now (sanitizeReason reason)))[id]? = some h →
            h.released = true := by
        refine ⟨eases_insert rfl, fun h found => ?_⟩
        rw [Map.get_insert, if_pos rfl] at found
        obtain rfl := Option.some.inj found
        rfl
      apply Op.ensures_get_bind
      refine Op.ensures_ite (fun _ => ?_) fun _ => gone
      apply Op.ensures_discard
      apply Op.ensures_attempt
      refine (ensures_onIndex_shape (CapacityIndex.eraseAll .hold id) _).mono ?_
      rintro _ _ ⟨y, rfl⟩
      exact ⟨gone.1.trans ⟨rfl, rfl, fun _ _ there _ => there⟩, gone.2⟩

/-- **The fencing loops** release every live hold that they pick, and grant none. -/
theorem ensures_fenceHolds (now : Timestamp) (reason : Text) (picks : HoldRecord → Bool) :
    Op.Ensures (fenceHolds now reason picks) c fun r d => r = .ok () ∧ Eases c d ∧
      ∀ (id : HoldId) (h : HoldRecord), d.holds[id]? = some h → picks h = true →
        h.released = true := by
  have loop : ∀ (victims : List (HoldId × HoldRecord)) (e : Coordinator),
      Op.Ensures (Op.each (fun entry : HoldId × HoldRecord => do
        discard <| Op.attempt <| releaseHold now entry.1 reason) victims) e fun r d =>
        r = .ok () ∧ Eases e d ∧ ∀ entry ∈ victims, ∀ h, d.holds[entry.1]? = some h →
          h.released = true := by
    intro victims
    induction victims with
    | nil => exact fun e => ⟨rfl, .refl e, fun _ no => absurd no List.not_mem_nil⟩
    | cons entry rest ih =>
      intro e
      apply Op.ensures_bind
      apply Op.ensures_discard
      apply Op.ensures_attempt
      refine (ensures_releaseHold_eases now entry.1 reason).mono fun _ e₁ ⟨first, gone⟩ => ?_
      refine (ih e₁).mono fun r d ⟨done, later, others⟩ => ⟨done, first.trans later, ?_⟩
      refine List.forall_mem_cons.mpr ⟨fun h there => ?_, others⟩
      by_contra own
      rw [Bool.not_eq_true] at own
      exact absurd ((gone h (later.live _ h there own)).symm.trans own) (by decide)
  unfold fenceHolds
  apply Op.ensures_get_bind
  refine (loop _ c).mono fun r d ⟨done, eases, gone⟩ => ⟨done, eases, fun id h there picked => ?_⟩
  by_contra own
  rw [Bool.not_eq_true] at own
  have before := eases.live id h there own
  have mem : (id, h) ∈ c.holds.toList.filter fun entry => !entry.2.released && picks entry.2 :=
    List.mem_filter.mpr ⟨Map.mem_toList.mpr before, by simp [own, picked]⟩
  exact absurd ((gone (id, h) mem h there).symm.trans own) (by decide)

theorem eases_consumeHold (p : CreatePlan) (c : Coordinator) (id : HoldId) :
    Eases c (consumeHold p c id) := by
  unfold consumeHold
  split
  · exact .refl c
  · exact eases_insert rfl

theorem eases_foldl {α : Type} {f : Coordinator → α → Coordinator} (turn : ∀ c x, Eases c (f c x)) :
    ∀ (xs : List α) (c : Coordinator), Eases c (xs.foldl f c)
  | [], c => .refl c
  | x :: xs, c => (turn c x).trans (eases_foldl turn xs (f c x))

theorem sameFences_putSeries (c : Coordinator) (series : ReservationSeries) :
    SameFences c (c.putSeries series) := ⟨rfl, rfl, rfl⟩

theorem sameFences_rememberAttempt (c : Coordinator) (attempt : AttemptRecord) :
    SameFences c (c.rememberAttempt attempt) := ⟨rfl, rfl, rfl⟩

theorem sameFences_retain (c : Coordinator) (retained : Bool) (attempt : AttemptRecord) :
    SameFences c (c.retain retained attempt) := by
  cases retained with
  | false => exact .refl c
  | true => exact sameFences_rememberAttempt c attempt

theorem eases_afterCreate (c : Coordinator) (p : CreatePlan) (mutation : ReservationMutation)
    (sequence : DurableSequence) : Eases c (c.afterCreate p mutation sequence) := by
  have companions := sameFences_foldl (f := companionDone) (fun d _ => sameFences_moveStored _ d _)
    mutation.companions c
  have records := companions.trans (sameFences_foldl sameFences_recallRecord
    (mutation.record :: mutation.members) _)
  have series := records.trans (sameFences_foldl sameFences_putSeries mutation.series.toList _)
  have attempt := series.trans (sameFences_rememberAttempt _ (attemptFor p.context p.fingerprint
    .committable mutation.record.key sequence p.terms.claimant p.now))
  have holds := attempt.eases.trans (eases_foldl (eases_consumeHold p) p.holds _)
  exact holds.trans ⟨rfl, rfl, fun _ _ there _ => there⟩

theorem sameFences_afterAmend (c : Coordinator) (p : AmendPlan)
    (superseded successors : List ReservationRecord) (mutation : ReservationMutation)
    (provenance : Provenance) (sequence : DurableSequence) :
    SameFences c (c.afterAmend p superseded successors mutation provenance sequence) := by
  have moved := sameFences_foldl (f := supersedeDone p provenance)
    (fun d _ => sameFences_moveStored _ d _) superseded c
  have edges : SameFences (superseded.foldl (supersedeDone p provenance) c)
      { superseded.foldl (supersedeDone p provenance) c with
        edges := (superseded.foldl (supersedeDone p provenance) c).edges ++
          mutation.edge.toList } := ⟨rfl, rfl, rfl⟩
  have records := (moved.trans edges).trans (sameFences_foldl sameFences_recallRecord successors _)
  have series := records.trans (sameFences_foldl sameFences_putSeries mutation.series.toList _)
  exact series.trans ⟨rfl, rfl, rfl⟩

theorem sameFences_afterRevalidation (c : Coordinator) (r : ReservationRecord) (now : Timestamp)
    (mutation : ReservationMutation) (provenance : Provenance) :
    SameFences c (c.afterRevalidation r now mutation provenance) := by
  have moved := sameFences_moveRecord c r (revalidatedForm r now provenance)
  have edges : SameFences (c.moveRecord r (revalidatedForm r now provenance))
      { c.moveRecord r (revalidatedForm r now provenance) with
        edges := (c.moveRecord r (revalidatedForm r now provenance)).edges ++
          mutation.edge.toList } := ⟨rfl, rfl, rfl⟩
  have record := (moved.trans edges).trans (sameFences_recallRecord _ mutation.record)
  exact record.trans ⟨rfl, rfl, rfl⟩

theorem sameFences_foldl_retireRecord (now : Timestamp) (keys : List ReservationKey)
    (c : Coordinator) : SameFences c (keys.foldl (retireRecord now) c) := by
  refine sameFences_foldl (fun d key => ?_) keys c
  unfold retireRecord
  split <;> exact ⟨rfl, rfl, rfl⟩

theorem sameFences_indexHolds {h : HoldRecord} {names : List ResourceName} {res : Except Error Unit}
    (run : (Op.each (indexHold h) names).exec c = (res, d)) : SameFences c d := by
  refine (Op.within_each (R := SameFences) (fun name => ?_) names c).of_run run
  have shape : ∀ {α : Type} (m : CapacityIndex.Method α), Op.Within SameFences (onIndex m) :=
    fun m => Op.within_zoom (fun _ _ => ⟨rfl, rfl, rfl⟩) m
  unfold indexHold
  refine Op.within_bind (Op.within_attempt (shape _)) fun res => ?_
  cases res with
  | ok _ => exact Op.within_pure _
  | error e =>
    exact Op.within_bind (Op.within_discard (Op.within_attempt (shape _))) fun _ =>
      Op.within_throw e

/-- The moves that neither fence nor grant. -/
def Move.Easing : Move → Prop
  | .fence _ | .grantHold .. => False
  | _ => True

/-- **A move** neither fences nor grants, unless it is one of the two that do. -/
theorem eases_takes (idle : Idle c) {m : Move} (takes : m.Takes c d) (easing : m.Easing) :
    Eases c d := by
  have same : ∀ (record : DurableRecord) (faults : List Bool), SameFences c (c.logged record faults) :=
    fun _ _ => ⟨rfl, rfl, rfl⟩
  have reindexed : ∀ {e : Coordinator} (y : CapacityIndex), Eases c e → Eases c (e.withIndex y) :=
    fun y h => h.trans ⟨rfl, rfl, fun _ _ there _ => there⟩
  have alike : ∀ {e : Coordinator}, e.fencedBoots = c.fencedBoots →
      e.fencedClaimants = c.fencedClaimants → e.holds = c.holds → Eases c e :=
    fun boots claimants holds => SameFences.eases ⟨boots, claimants, holds⟩
  cases m with
  | fence record => exact easing.elim
  | grantHold hold terms binding => exact easing.elim
  | boot boot now =>
    obtain ⟨-, c₁, appended, rfl⟩ := takes
    obtain ⟨faults, rfl⟩ := appended.shape
    exact alike rfl rfl rfl
  | claimant registration =>
    obtain ⟨-, -, c₁, appended, rfl⟩ := takes
    obtain ⟨faults, rfl⟩ := appended.shape
    exact alike rfl rfl rfl
  | capacity now stated withdrawals applied withdrawn =>
    obtain ⟨-, -, -, c₁, c₂, c₃, applies, withdraws, appended, rfl⟩ := takes
    have first := (within_applyCapacities stated.id now stated.resources c).of_run applies
    have second := (within_withdrawAll now withdrawals c₁).of_run withdraws
    obtain ⟨ledger, rfl, -⟩ := first.trans second
    obtain ⟨faults, rfl⟩ := appended.shape
    exact alike rfl rfl rfl
  | ledger table =>
    obtain ⟨-, rfl⟩ := takes
    exact alike rfl rfl rfl
  | paths now stated changed =>
    obtain ⟨-, c₁, c₂, applies, appended, rfl⟩ := takes
    obtain ⟨paths, rfl⟩ := (within_applyPaths stated.id now stated.paths c).of_run applies
    obtain ⟨faults, rfl⟩ := appended.shape
    exact alike rfl rfl rfl
  | pathTable table =>
    obtain rfl := takes
    exact alike rfl rfl rfl
  | policy now record =>
    obtain ⟨policies, c₁, -, appended, rfl⟩ := takes
    obtain ⟨faults, rfl⟩ := appended.shape
    exact alike rfl rfl rfl
  | policyTable registry =>
    obtain rfl := takes
    exact alike rfl rfl rfl
  | overcommit mutation =>
    obtain ⟨c₁, appended, rfl⟩ := takes
    obtain ⟨faults, rfl⟩ := appended.shape
    exact alike rfl rfl rfl
  | retire now =>
    obtain ⟨-, c₁, appended, rfl⟩ := takes
    obtain ⟨faults, rfl⟩ := appended.shape
    exact ((same _ faults).trans (sameFences_foldl_retireRecord now c.retireBatch _)).eases
  | quiet =>
    obtain ⟨faults, stats, rfl⟩ := takes
    exact alike rfl rfl rfl
  | shutdown =>
    obtain rfl := takes
    exact alike rfl rfl rfl
  | snapshot =>
    obtain ⟨-, faults, rfl⟩ := takes
    exact alike rfl rfl rfl
  | rotate =>
    obtain ⟨-, journalOpen, journalBytes, faults, rfl⟩ := takes
    exact alike rfl rfl rfl
  | refusal attempt =>
    obtain ⟨-, -, c₁, appended, rfl⟩ := takes
    exact (appended.fences.trans (sameFences_rememberAttempt c₁ _)).eases
  | transition r target now reason context retained =>
    obtain ⟨faults, y, -, rfl, -⟩ := takes_transition idle takes
    exact (reindexed y ((same _ faults).trans (sameFences_moveRecord _ r _)).eases).trans
      (sameFences_retain _ retained _).eases
  | pendRecall r now reason context effect grace =>
    obtain ⟨faults, y, -, rfl, -⟩ := takes_recall idle takes
    exact (reindexed y (((same _ faults).trans (sameFences_moveRecord _ r _)).trans
      (sameFences_moveRecord _ _ _)).eases).trans (sameFences_retain _ true _).eases
  | mark r applicability reason now =>
    obtain ⟨faults, y, -, rfl, -⟩ := takes_mark idle takes
    exact reindexed y ((same _ faults).trans (sameFences_moveRecord _ r _)).eases
  | create p victims =>
    obtain ⟨faults, y, -, rfl, -⟩ := takes_create idle takes
    exact reindexed y ((same _ faults).eases.trans (eases_afterCreate _ p _ _))
  | amend p superseded successors mutation =>
    obtain ⟨-, faults, y, -, rfl, -⟩ := takes_amend idle takes
    exact reindexed y ((same _ faults).trans (sameFences_afterAmend _ p _ _ _ _
      (c.store.lastSequence + 1))).eases
  | revalidate r binding now context =>
    obtain ⟨faults, y, -, rfl, -⟩ := takes_revalidate idle takes
    exact reindexed y ((same _ faults).trans (sameFences_afterRevalidation _ r _ _ _)).eases
  | reindexed =>
    obtain ⟨y, rfl, -, -⟩ := takes
    exact reindexed y (.refl c)
  | releaseHold now id reason =>
    obtain ⟨-, rfl⟩ := takes
    exact ((ensures_releaseHold_eases now id reason).of_run rfl).1
  | refuseHold hold =>
    obtain ⟨e, run⟩ := takes
    exact (sameFences_indexHolds run).eases
  | sawCapacity stated =>
    obtain rfl := takes
    exact alike rfl rfl rfl

/-- The boots that are fenced after a move. -/
theorem bars_takes {fences : List FenceRecord} (idle : Idle c) (h : Bars c fences) {m : Move}
    (takes : m.Takes c d) : Bars d (fences ++ (m.logs c).flatMap fencesOf) := by
  have alike : d.fencedBoots = c.fencedBoots → (m.logs c).flatMap fencesOf = [] →
      Bars d (fences ++ (m.logs c).flatMap fencesOf) := fun boots none => by
    rw [none, List.append_nil]
    exact h.same boots
  cases m with
  | fence record =>
    obtain ⟨c₁, appended, rfl⟩ := takes
    exact bars_recallFence (h.same appended.fences.boots) record
  | grantHold hold terms binding =>
    obtain ⟨-, c₁, run, rfl⟩ := takes
    exact alike (sameFences_indexHolds run).boots rfl
  | _ => exact alike (eases_takes idle takes trivial).boots rfl

/-- **The fenced boots** of a coordinator are those of the fences that its directory brings back. -/
theorem bars_leaves {x : Contents} (idle : Idle c) (h : Bars c x.fences) {m : Move}
    (takes : m.Takes c d) : Bars d (m.leaves c x).fences := by
  have after := bars_takes idle h takes
  by_cases snapshot : m = .snapshot
  · subst snapshot
    have same : d.fencedBoots = c.fencedBoots := (eases_takes idle takes trivial).boots
    refine Bars.same ⟨h.filed, fun boot => ?_⟩ same
    have listed : ∀ f, f ∈ (Move.leaves c x .snapshot).fences ↔
        ∃ b : PublisherBootId, c.fencedBoots[b]? = some f := fun f => by
      rw [← Map.mem_values]
      exact Iff.of_eq (congrArg (f ∈ ·) (List.append_nil c.fencedBoots.values))
    refine ⟨fun there => ?_, ?_⟩
    · obtain ⟨f, found⟩ := Option.isSome_iff_exists.mp there
      obtain ⟨-, -, -, named⟩ := (h.barred boot).mp there
      exact ⟨f, (listed f).mpr ⟨boot, found⟩, h.filed boot f found, named⟩
    · rintro ⟨f, mem, rfl, named⟩
      obtain ⟨b, found⟩ := (listed f).mp mem
      rw [h.filed b f found, found]
      rfl
  · have leaves : m.leaves c x = { x with tail := x.tail ++ m.logs c } := by
      cases m <;> first | rfl | exact absurd rfl snapshot
    rw [leaves]
    unfold Contents.fences at after ⊢
    rw [List.flatMap_append, ← List.append_assoc]
    exact after

theorem Moves.eases {P : Coordinator → Move → Prop} (h : Moves P c d) (idle : Idle c)
    (easing : ∀ e m, P e m → m.Easing) : Eases c d :=
  (h.relates_idle idle fun e _ m eIdle own takes => eases_takes eIdle takes (easing e m own)).2

theorem Runs.eases {P : Move → Prop} (h : Runs P c d) (idle : Idle c)
    (easing : ∀ m, P m → m.Easing) : Eases c d :=
  (h idle).2.eases idle fun _ m own => easing m own

theorem Clocked.easing {m : Move} (h : Clocked m) : m.Easing := by
  cases m <;> trivial

theorem Housekeeping.easing {m : Move} (h : Housekeeping m) : m.Easing := by
  cases m <;> trivial

/-! ## Requests of a fenced boot or claimant -/

/-- The boot or the claimant of the context is fenced. -/
def Excludes (c : Coordinator) (context : RequestContext) : Prop :=
  (context.publisherBoot.isNil = false ∧ (c.fencedBoots[context.publisherBoot]?).isSome = true) ∨
    (context.claimant.isNil = false ∧ (c.fencedClaimants[context.claimant]?).isSome = true)

theorem validateContext_not_excluded {context : RequestContext} {required : Bool}
    (ok : c.validateContext context required = .ok ()) : ¬ c.Excludes context := by
  unfold validateContext at ok
  obtain ⟨-, -, ok⟩ := Result.bind_eq_ok.mp ok
  dsimp only at ok
  by_cases epoch : context.assertedEpoch ≠ c.incarnation.epoch
  · rw [if_pos epoch] at ok
    cases ok
  rw [if_neg epoch] at ok
  obtain ⟨-, -, ok⟩ := Result.bind_eq_ok.mp ok
  obtain ⟨-, -, ok⟩ := Result.bind_eq_ok.mp ok
  rintro (⟨named, fenced⟩ | ⟨named, fenced⟩)
  · obtain ⟨f, found⟩ := Option.isSome_iff_exists.mp fenced
    rw [named, found] at ok
    cases ok
  · obtain ⟨f, found⟩ := Option.isSome_iff_exists.mp fenced
    rw [named, found] at ok
    cases boot : context.publisherBoot.isNil with
    | true =>
      rw [boot] at ok
      cases ok
    | false =>
      rw [boot] at ok
      cases other : c.fencedBoots[context.publisherBoot]? with
      | some f =>
        rw [other] at ok
        cases ok
      | none =>
        rw [other] at ok
        cases ok

/-- A request whose context is not valid is refused, and nothing has happened. -/
theorem ensures_perform_refused {request : Request} {context : RequestContext}
    (asks : request.context = some context)
    (refused : ∀ required, c.validateContext context required ≠ .ok ()) :
    Op.Ensures request.perform c fun r d => (∃ e, r = .error e) ∧ d = c := by
  have opens : ∀ {α : Type} (required : Bool) (f : Coordinator → Method α),
      Op.Ensures (do
        let c ← get
        Op.lift (c.validateContext context required)
        f c) c fun r d => (∃ e, r = .error e) ∧ d = c := by
    intro α required f
    apply Op.ensures_get_bind
    exact Op.ensures_lift_bind (fun _ ok => absurd ok (refused required)) fun e _ => ⟨⟨e, rfl⟩, rfl⟩
  have discarded : ∀ {α : Type} {m : Method α},
      (Op.Ensures m c fun r d => (∃ e, r = .error e) ∧ d = c) →
        Op.Ensures (discard m) c fun r d => (∃ e, r = .error e) ∧ d = c := fun h =>
    Op.ensures_discard (h.mono fun r d ⟨⟨e, failed⟩, same⟩ => by
      subst failed
      exact ⟨⟨e, rfl⟩, same⟩)
  have bound : ∀ {α β : Type} {m : Method α} {f : α → Method β},
      (Op.Ensures m c fun r d => (∃ e, r = .error e) ∧ d = c) →
        Op.Ensures (m >>= f) c fun r d => (∃ e, r = .error e) ∧ d = c := fun h =>
    Op.ensures_bind (h.mono fun r d ⟨⟨e, failed⟩, same⟩ => by
      subst failed
      exact ⟨⟨e, rfl⟩, same⟩)
  cases request with
  | ingestCapacity now snapshot withdrawals own =>
    obtain rfl := Option.some.inj asks
    exact opens false _
  | ingestPaths now snapshot own =>
    obtain rfl := Option.some.inj asks
    exact opens false _
  | ingestPolicy now record own =>
    obtain rfl := Option.some.inj asks
    exact opens false _
  | registerClaimant now claimant generation own =>
    obtain rfl := Option.some.inj asks
    exact opens false _
  | fence now own claimant generation boot session wide =>
    obtain rfl := Option.some.inj asks
    exact opens false _
  | create now own terms requestedId dryRun holds =>
    obtain rfl := Option.some.inj asks
    exact discarded (bound (opens true _))
  | amend now own target generation terms dryRun =>
    obtain rfl := Option.some.inj asks
    exact discarded (bound (opens true _))
  | release now own id generation =>
    obtain rfl := Option.some.inj asks
    exact discarded (opens true _)
  | «recall» now own id generation effectiveAt grace force =>
    obtain rfl := Option.some.inj asks
    exact discarded (opens true _)
  | revoke now own id generation =>
    obtain rfl := Option.some.inj asks
    exact discarded (opens true _)
  | revalidate now own id generation markStale =>
    obtain rfl := Option.some.inj asks
    exact discarded (opens true _)
  | reconcileLifecycle now own =>
    obtain rfl := Option.some.inj asks
    exact discarded (opens false _)
  | reconcileAttempt own attempt =>
    obtain rfl := Option.some.inj asks
    exact discarded (opens false _)
  | acquireHold now own terms expiresAt =>
    obtain rfl := Option.some.inj asks
    exact discarded (bound (opens true _))
  | releaseHold now own id generation =>
    obtain rfl := Option.some.inj asks
    exact discarded (opens false _)
  | releaseSession now own =>
    obtain rfl := Option.some.inj asks
    exact opens false _
  | resolveOvercommit now own resource resolution =>
    obtain rfl := Option.some.inj asks
    exact opens true _
  | _ => cases asks

/-! ## Holds of a fenced boot -/

/-- No live hold belongs to a fenced boot. -/
def Unfenced (c : Coordinator) : Prop :=
  ∀ (id : HoldId) (h : HoldRecord), c.holds[id]? = some h → h.boot.isNil = false →
    (c.fencedBoots[h.boot]?).isSome = true → h.released = true

theorem Unfenced.eases (h : Unfenced c) (eases : Eases c d) : Unfenced d := by
  intro id hold there named fenced
  by_contra own
  rw [Bool.not_eq_true] at own
  rw [eases.boots] at fenced
  exact absurd ((h id hold (eases.live id hold there own) named fenced).symm.trans own) (by decide)

/-- **A fence** releases the live holds of the boot that it fences. -/
theorem ensures_fence_unfenced (h : Unfenced c) (now : Timestamp) (context : RequestContext)
    (claimant : ClaimantId) (generation : ClaimantGeneration) (boot : PublisherBootId)
    (session : SessionId) (wide : Bool) :
    Op.Ensures (fence now context claimant generation boot session wide) c fun _ d =>
      Unfenced d := by
  have fencing : ∀ (reason : Text) (picks : HoldRecord → Bool),
      Op.Within Eases (fenceHolds now reason picks) := fun reason picks e =>
    (ensures_fenceHolds now reason picks).mono fun _ _ done => done.2.1
  unfold fence
  apply Op.ensures_get_bind
  refine Op.ensures_lift_bind (fun _ _ => ?_) fun _ _ => h
  refine Op.ensures_refuseIf_bind (fun _ => ?_) fun _ => h
  apply Op.ensures_bind
  apply Op.ensures_discard
  refine (ensures_appendRecord _ c).mono ?_
  rintro (e | sequence) c₁ spec
  · obtain ⟨faults, rfl⟩ := spec
    exact h
  have same := spec.2.fences
  apply Op.ensures_modify_bind
  -- The live holds of the boot go first; what follows only releases.
  apply Op.ensures_bind
  have released : Op.Ensures (Op.when (!boot.isNil)
      (fenceHoldsForBoot now boot (sanitizeReason context.reason)))
      (c₁.recallFence (Request.fenceOf now context claimant generation boot session wide))
      fun r d => r = .ok () ∧ Unfenced d := by
    refine Op.ensures_when (fun named => ?_) fun named => ⟨rfl, ?_⟩
    · refine (ensures_fenceHolds now _ _).mono fun r d ⟨done, eases, gone⟩ => ⟨done, ?_⟩
      intro id hold there own fenced
      by_contra live
      rw [Bool.not_eq_true] at live
      have before := eases.live id hold there live
      rw [eases.boots] at fenced
      by_cases other : hold.boot = boot
      · exact absurd ((gone id hold there (by simp [other])).symm.trans live) (by decide)
      · have table : (c₁.recallFence (Request.fenceOf now context claimant generation boot session
            wide)).fencedBoots = c₁.fencedBoots.insert boot
              (Request.fenceOf now context claimant generation boot session wide) := if_pos named
        rw [table, Map.get_insert, if_neg other, same.boots] at fenced
        have was : c.holds[id]? = some hold := same.holds ▸ before
        exact absurd ((h id hold was own fenced).symm.trans live) (by decide)
    · intro id hold there own fenced
      have table : (c₁.recallFence (Request.fenceOf now context claimant generation boot session
          wide)).fencedBoots = c₁.fencedBoots :=
        if_neg (by simpa [Request.fenceOf] using named)
      rw [table, same.boots] at fenced
      exact h id hold (same.holds ▸ there) own fenced
  refine released.mono ?_
  rintro _ d ⟨rfl, unfenced⟩
  refine ((Op.within_bind (R := Eases) (Op.within_when (fencing _ _)) fun _ =>
    Op.within_when (fencing _ _)) d).mono fun _ e eases => unfenced.eases eases

/-- **The checks of an acquisition** that succeed grant nothing yet, and the boot of the hold is not
fenced. -/
theorem ensures_admitHold_eases (idle : Idle c) (now : Timestamp) (context : RequestContext)
    (terms : ReservationTerms) (expiresAt : Timestamp) :
    Op.Ensures (admitHold now context terms expiresAt) c fun r d => Eases c d ∧
      ∀ hold, r = .ok hold → hold.boot = context.publisherBoot ∧ ¬ c.Excludes context := by
  unfold admitHold
  apply Op.ensures_get_bind
  refine Op.ensures_lift_bind (fun _ valid => ?_) fun _ _ => ⟨.refl c, fun _ no => nomatch no⟩
  have included := validateContext_not_excluded valid
  refine Op.ensures_lift_bind (fun _ _ => ?_) fun _ _ => ⟨.refl c, fun _ no => nomatch no⟩
  refine Op.ensures_bind_run fun r c₁ ran => ?_
  have registers := (within_ensureClaimant (P := Move.Easing) (fun _ h => h.easing) _ _ now
    trivial c).of_run ran
  have first := registers.eases idle fun _ h => h
  rcases r with e | ⟨⟩
  · exact ⟨first, fun _ no => nomatch no⟩
  refine Op.ensures_bind_run fun r c₂ reconciled => ?_
  have clocked := (within_reconcile (P := Move.Easing) (fun _ h => h.easing) now c₁).of_run
    reconciled
  have second := first.trans (clocked.eases (registers idle).1 fun _ h => h)
  rcases r with e | ⟨⟩
  · exact ⟨second, fun _ no => nomatch no⟩
  apply Op.ensures_get_bind
  refine Op.ensures_lift_bind (fun _ _ => ?_) fun _ _ => ⟨second, fun _ no => nomatch no⟩
  refine Op.ensures_lift_bind (fun _ _ => ?_) fun _ _ => ⟨second, fun _ no => nomatch no⟩
  refine Op.ensures_refuseIf_bind (fun _ => ?_) fun _ => ⟨second, fun _ no => nomatch no⟩
  refine ⟨second, fun hold same => ⟨?_, included⟩⟩
  obtain rfl := Except.ok.inj same
  rfl

theorem ensures_acquireHold_unfenced (idle : Idle c) (h : Unfenced c) (now : Timestamp)
    (context : RequestContext) (terms : ReservationTerms) (expiresAt : Timestamp) :
    Op.Ensures (acquireHold now context terms expiresAt) c fun _ d => Unfenced d := by
  unfold acquireHold
  apply Op.ensures_bind
  refine (ensures_admitHold_eases idle now context terms expiresAt).mono ?_
  rintro (e | hold) c₁ ⟨eases, granted⟩
  · exact h.eases eases
  obtain ⟨own, included⟩ := granted hold rfl
  refine Op.ensures_bind_run fun r c₂ run => ?_
  have indexed := sameFences_indexHolds run
  have unfenced : Unfenced c₂ := (h.eases eases).eases indexed.eases
  rcases r with e | ⟨⟩
  · exact unfenced
  apply Op.ensures_modify_bind
  intro id other there named fenced
  change (c₂.holds.insert hold.id hold)[id]? = some other at there
  rw [Map.get_insert] at there
  split at there
  · obtain rfl := Option.some.inj there
    rw [indexed.boots, eases.boots, own] at fenced
    exact absurd (.inl ⟨own ▸ named, fenced⟩) included
  · exact unfenced id other there named fenced

/-- **Step lemma**: no request leaves a live hold of a fenced boot. -/
theorem unfenced_perform (idle : Idle c) (h : Unfenced c) (request : Request) :
    Op.Ensures request.perform c fun _ d => Unfenced d := by
  have elsewhere : (∀ m, request.Makes m → m.Easing) →
      Op.Ensures request.perform c fun _ d => Unfenced d := fun easing =>
    (ensures_perform request c).mono fun _ _ runs =>
      h.eases ((runs idle).2.eases idle fun _ m own => easing m own.1)
  cases request with
  | fence now context claimant generation boot session wide =>
    exact ensures_fence_unfenced h now context claimant generation boot session wide
  | acquireHold now context terms expiresAt =>
    exact Op.ensures_discard ((ensures_acquireHold_unfenced idle h now context terms
      expiresAt).mono fun r _ unfenced => by rcases r with _ | _ <;> exact unfenced)
  | _ =>
    refine elsewhere fun m made => made.elim (fun house => house.easing) fun carries => ?_
    cases m <;> trivial

end

end Coordinator

namespace System

open Coordinator (Unfenced Excludes)

/-- **No live hold** of a running coordinator belongs to a fenced boot. -/
theorem reachable_unfenced {as : List Action} : ∀ {c : Coordinator}, run as = .up c →
    Unfenced c := by
  induction as using List.reverseRecOn with
  | nil => exact fun h => nomatch h
  | append_singleton as a ih =>
    intro c h
    rw [run_snoc] at h
    obtain ⟨event, faults⟩ := a
    cases before : run as with
    | up c₀ =>
      rw [before] at h
      cases event with
      | request request =>
        obtain rfl := System.up.inj h
        have held : Unfenced (c₀.withFaults faults) := fun id hold there => ih before id hold there
        exact (Coordinator.unfenced_perform (idle_withFaults (reachable_idle before).1 faults)
          held request).of_run rfl
      | start config boot now =>
        obtain rfl := System.up.inj h
        exact ih before
      | stop => cases h
    | down disk =>
      rw [before] at h
      cases event with
      | request request => cases h
      | stop => cases h
      | start config boot now =>
        change start config boot now faults disk = .up c at h
        have held : Holds (fun _ _ => True) (fun _ _ => True) (run as) :=
          holds_always ⟨fun _ _ _ _ _ _ => trivial, fun _ _ _ _ _ => trivial, fun _ _ => trivial⟩
            (holds_initial trivial) as
        rw [before] at held
        obtain ⟨x, written, sound, -⟩ := held
        unfold start at h
        cases checked : Coordinator.checkConfig config with
        | error e =>
          rw [checked] at h
          cases h
        | ok _ =>
          cases recovered : Coordinator.recover config disk faults with
          | error e =>
            rw [checked, recovered] at h
            cases h
          | ok c₀ =>
            rw [checked, recovered] at h
            dsimp only at h
            have idle := Coordinator.idle_recover written sound recovered
            have none : c₀.holds = ∅ := (Coordinator.recounts_recover written recovered).2
            have blank : Unfenced c₀ := fun id h there => absurd there (by simp [none])
            rcases booted : (Coordinator.bootUp boot now).exec c₀ with ⟨e | ⟨⟩, c₁⟩
            · rw [booted] at h
              cases h
            · rw [booted] at h
              obtain rfl := System.up.inj h
              have runs := (Coordinator.ensures_bootUp boot now c₀).of_run booted
              refine blank.eases (runs.eases idle fun m own => ?_)
              rcases own.1 with house | rfl
              · exact house.easing
              · trivial

/-- Fenced boots stay fenced along every run, through restarts as well. -/
theorem keeps_barred (boots : PublisherBootId → Prop) :
    Keeps (fun _ _ => True)
      (fun c x => c.Bars x.fences ∧ ∀ boot, boots boot → Barred x.fences boot)
      (fun _ x => ∀ boot, boots boot → Barred x.fences boot) where
  move := by
    rintro s a c c' x m - - idle - ⟨bars, held⟩ takes
    have next := Coordinator.bars_leaves idle bars takes
    refine ⟨next, fun boot mem => (next.barred boot).mp ?_⟩
    exact ((Coordinator.bars_takes idle bars takes).barred boot).mpr
      (barred_append.mpr (.inl (held boot mem)))
  recover := fun _ w _ held h => ⟨(Coordinator.recounts_recover w h).1, held⟩
  close := fun _ h => h.2

theorem boots_after {as bs : List Action} {c d : Coordinator} (h : run as = .up c)
    (h' : run (as ++ bs) = .up d) {boot : PublisherBootId}
    (fenced : (c.fencedBoots[boot]?).isSome = true) : (d.fencedBoots[boot]?).isSome = true := by
  have first := holds_always (keeps_barred fun _ => False)
    (holds_initial (J := fun c x => c.Bars x.fences ∧ ∀ boot, False → Barred x.fences boot)
      fun _ no => no.elim) as
  rw [show after step initial as = .up c from h] at first
  obtain ⟨idle, x, written, sound, bars, -⟩ := first
  have second := holds_always (keeps_barred fun boot => (c.fencedBoots[boot]?).isSome = true)
    (s := .up c) ⟨idle, x, written, sound, bars, fun boot there => (bars.barred boot).mp there⟩ bs
  rw [← h, ← run_append, h'] at second
  obtain ⟨-, y, -, -, bars', held⟩ := second
  exact (bars'.barred boot).mpr (held boot fenced)

/-- A fenced claimant stays fenced while a request is served. -/
theorem claimants_serve {c : Coordinator} (idle : Coordinator.Idle c) (request : Request)
    (faults : List Bool) {claimant : ClaimantId}
    (fenced : (c.fencedClaimants[claimant]?).isSome = true) :
    Coordinator.Idle (serve c request faults).2 ∧
      ((serve c request faults).2.fencedClaimants[claimant]?).isSome = true := by
  have turn := (Coordinator.ensures_perform request (c.withFaults faults)).of_run
    (r := (serve c request faults).1) rfl (idle_withFaults idle faults)
  refine turn.2.invariant_idle (idle_withFaults idle faults)
    (I := fun e => (e.fencedClaimants[claimant]?).isSome = true) ?_ fenced
  rintro e e' m eIdle there - takes
  cases m with
  | fence record =>
    obtain ⟨c₁, appended, rfl⟩ := takes
    rw [← appended.fences.claimants] at there
    unfold Coordinator.recallFence
    dsimp only
    split
    · rw [Map.get_insert]
      split
      · rfl
      · exact there
    · exact there
  | grantHold hold terms binding =>
    obtain ⟨-, c₁, run, rfl⟩ := takes
    rw [← (Coordinator.sameFences_indexHolds run).claimants] at there
    exact there
  | _ =>
    rw [(Coordinator.eases_takes eIdle takes trivial).claimants]
    exact there

/-- Fenced claimants stay fenced as long as the process lives. -/
theorem claimants_after {bs : List Action} {d : Coordinator} {claimant : ClaimantId}
    (lives : ∀ a ∈ bs, a.event ≠ .stop) : ∀ {c : Coordinator}, Coordinator.Idle c →
      after step (.up c) bs = .up d → (c.fencedClaimants[claimant]?).isSome = true →
        (d.fencedClaimants[claimant]?).isSome = true := by
  induction bs with
  | nil =>
    intro c _ h fenced
    obtain rfl := System.up.inj h
    exact fenced
  | cons a bs ih =>
    intro c idle h fenced
    obtain ⟨event, faults⟩ := a
    obtain ⟨here, rest⟩ := List.forall_mem_cons.mp lives
    cases event with
    | stop => exact absurd rfl here
    | start config boot now => exact ih rest idle h fenced
    | request request =>
      obtain ⟨idle', fenced'⟩ := claimants_serve idle request faults fenced
      exact ih rest idle' h fenced'

end System

/-- What a fence that succeeds leaves in the tables. -/
theorem Coordinator.ensures_fence_tables {c : Coordinator} (now : Timestamp)
    (context : RequestContext) (claimant : ClaimantId) (generation : ClaimantGeneration)
    (boot : PublisherBootId) (session : SessionId) (wide : Bool) :
    Op.Ensures (Coordinator.fence now context claimant generation boot session wide) c fun r d =>
      r = .ok () →
        (boot.isNil = false → (d.fencedBoots[boot]?).isSome = true) ∧
        (wide = true → claimant.isNil = false → (d.fencedClaimants[claimant]?).isSome = true) := by
  unfold fence
  apply Op.ensures_get_bind
  refine Op.ensures_lift_bind (fun _ _ => ?_) fun _ _ no => nomatch no
  refine Op.ensures_refuseIf_bind (fun _ => ?_) fun _ no => nomatch no
  refine Op.ensures_bind_run fun r c₁ ran => ?_
  rcases r with e | ⟨⟩
  · exact fun no => nomatch no
  apply Op.ensures_modify_bind
  have fencing : ∀ (reason : Text) (picks : HoldRecord → Bool),
      Op.Within Eases (fenceHolds now reason picks) := fun reason picks e =>
    (ensures_fenceHolds now reason picks).mono fun _ _ done => done.2.1
  refine ((Op.within_bind (R := Eases) (Op.within_when (fencing _ _)) fun _ =>
    Op.within_bind (Op.within_when (fencing _ _)) fun _ => Op.within_when (fencing _ _)) _).mono
      fun _ d eases _ => ⟨fun named => ?_, fun broad named => ?_⟩
  · rw [eases.boots]
    unfold recallFence
    simp [named]
  · rw [eases.claimants]
    unfold recallFence
    simp [broad, named]

namespace System.Sample

/-- The boot of the sample requests is fenced by another one, and with it their claimant. -/
def fencing : Request := .fence 4 { context 1 0 with publisherBoot := 6 } 5 2 8 0 true

end System.Sample

end Brf
