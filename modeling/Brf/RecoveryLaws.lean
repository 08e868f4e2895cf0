import Brf.RecordLaws
import Brf.Recovery
import Brf.StoreLaws

/-!
# What recovery leaves alone

Replay interprets one record after the other on the state it has rebuilt so far.

* `Steady c c'`: the handle, the configuration and the incarnation are the same, whatever else has
  changed. All of replay but the boot records is steady.
* `Replayed c c'`: the handle and the configuration are the same, and the epoch has not gone back.

Results: `within_applyReplay`, `applySnapshot_epoch`, and `recover_epoch`: the recovered epoch is at
least that of the snapshot and of every boot record behind it.
-/

namespace Brf

open Brf.Lib

namespace Coordinator

/-- Replay has touched neither the handle nor the configuration nor the incarnation. -/
structure Steady (c c' : Coordinator) : Prop where
  store : c'.store = c.store
  config : c'.config = c.config
  incarnation : c'.incarnation = c.incarnation

namespace Steady

theorem refl (c : Coordinator) : Steady c c := ⟨rfl, rfl, rfl⟩

theorem trans {a b c : Coordinator} (h : Steady a b) (h' : Steady b c) : Steady a c :=
  ⟨h'.store.trans h.store, h'.config.trans h.config, h'.incarnation.trans h.incarnation⟩

instance : IsPreorder Coordinator Steady where
  refl := refl
  trans _ _ _ := trans

theorem foldl {α : Type} {f : Coordinator → α → Coordinator} (step : ∀ c x, Steady c (f c x)) :
    ∀ (xs : List α) (c : Coordinator), Steady c (xs.foldl f c)
  | [], c => refl c
  | x :: xs, c => (step c x).trans (foldl step xs (f c x))

end Steady

/-! ## Pure steps -/

theorem steady_putRecord (c : Coordinator) (r : ReservationRecord) : Steady c (c.putRecord r) :=
  ⟨rfl, rfl, rfl⟩

theorem steady_registerRecord (c : Coordinator) (r : ReservationRecord) :
    Steady c (c.registerRecord r) := ⟨rfl, rfl, rfl⟩

theorem steady_syncQueues (c : Coordinator) (r : ReservationRecord) :
    Steady c (c.syncQueues r) := by
  unfold syncQueues
  split
  · exact ⟨rfl, rfl, rfl⟩
  · exact ⟨rfl, rfl, rfl⟩

theorem steady_countState (c : Coordinator) (old new : ReservationState) :
    Steady c (c.countState old new) := by
  unfold countState
  split
  · exact ⟨rfl, rfl, rfl⟩
  · split
    · exact ⟨rfl, rfl, rfl⟩
    · exact .refl c

/-- A stored record has moved to its next form. -/
theorem steady_moved (c : Coordinator) (old new : ReservationState) (r : ReservationRecord) :
    Steady c (((c.countState old new).putRecord r).syncQueues r) :=
  ((steady_countState c old new).trans (steady_putRecord _ r)).trans (steady_syncQueues _ r)

theorem steady_rememberAttempt (c : Coordinator) (attempt : AttemptRecord) :
    Steady c (c.rememberAttempt attempt) := ⟨rfl, rfl, rfl⟩

theorem steady_recallAttempt (c : Coordinator) (attempt : Option AttemptMutation) :
    Steady c (c.recallAttempt attempt) := by
  cases attempt with
  | none => exact .refl c
  | some attempt => exact steady_rememberAttempt c attempt

theorem steady_recallSeries (c : Coordinator) (series : ReservationSeries) :
    Steady c (c.recallSeries series) := ⟨rfl, rfl, rfl⟩

theorem steady_recallFence (c : Coordinator) (fence : FenceRecord) :
    Steady c (c.recallFence fence) := ⟨rfl, rfl, rfl⟩

theorem steady_recallClaimant (c : Coordinator) (registration : ClaimantMutation) :
    Steady c (c.recallClaimant registration) := by
  unfold recallClaimant
  cases c.claimants[registration.claimant]? with
  | none => exact ⟨rfl, rfl, rfl⟩
  | some known =>
    by_cases newer : known < registration.generation
    · simp only [newer, decide_true, if_true]
      exact ⟨rfl, rfl, rfl⟩
    · simp only [newer, decide_false, Bool.false_eq_true, if_false]
      exact .refl c

theorem steady_recallOvercommit (c : Coordinator) (mutation : OvercommitMutation) :
    Steady c (c.recallOvercommit mutation) := ⟨rfl, rfl, rfl⟩

theorem steady_recallRetired (c : Coordinator) (r : ReservationRecord) :
    Steady c (c.recallRetired r) := ⟨rfl, rfl, rfl⟩

theorem steady_recallRecord (c : Coordinator) (r : ReservationRecord) :
    Steady c (c.recallRecord r) :=
  (steady_registerRecord c r).trans (steady_syncQueues _ r)

theorem steady_replayRetire (c : Coordinator) (key : ReservationKey) :
    Steady c (c.replayRetire key) := by
  unfold replayRetire
  split
  · exact .refl c
  · exact ⟨rfl, rfl, rfl⟩

theorem steady_rebuildQueues (c : Coordinator) : Steady c c.rebuildQueues :=
  have fold := Steady.foldl steady_syncQueues c.records.values
    { c with activationQueue := [], expiryQueue := [], recallQueue := [] }
  ⟨fold.store, fold.config, fold.incarnation⟩

theorem steady_withIndex (c : Coordinator) (y : CapacityIndex) : Steady c (c.withIndex y) :=
  ⟨rfl, rfl, rfl⟩

/-! ## The index -/

/-- A call on the index changes the index alone. -/
theorem ensures_onIndex_shape {α : Type} (m : CapacityIndex.Method α) (c : Coordinator) :
    Op.Ensures (onIndex m) c (fun _ c' => ∃ y, c' = c.withIndex y) :=
  Op.ensures_zoom ⟨_, rfl⟩

/-- `sync_index_locked` changes the index alone. -/
theorem ensures_syncIndex_shape (r : ReservationRecord) (c : Coordinator) :
    Op.Ensures (syncIndex r) c (fun _ c' => ∃ y, c' = c.withIndex y) := by
  unfold syncIndex indexInsert indexErase
  apply Op.ensures_get_bind
  refine Op.ensures_ite (fun _ => ?_) fun _ => ?_
  · exact Op.ensures_ite (fun _ => ⟨c.index, rfl⟩) fun _ => ensures_onIndex_shape _ c
  · refine Op.ensures_ite (fun _ => ?_) fun _ => ⟨c.index, rfl⟩
    apply Op.ensures_get_bind
    exact Op.ensures_ite (fun _ => ensures_onIndex_shape _ c) fun _ => ⟨c.index, rfl⟩

theorem ensures_rebuildIndex_shape (c : Coordinator) :
    Op.Ensures rebuildIndex c (fun _ c' => ∃ y, c' = c.withIndex y) := by
  unfold rebuildIndex
  apply Op.ensures_modify_bind
  apply Op.ensures_get_bind
  refine (Op.ensures_each (I := fun c' => ∃ y, c' = c.withIndex y) ⟨{}, rfl⟩ ?_).mono
    fun _ _ h => h
  rintro entry - t ⟨y, rfl⟩
  apply Op.ensures_get_bind
  refine Op.ensures_ite (fun _ => ?_) fun _ => ⟨y, rfl⟩
  refine (ensures_syncIndex_shape entry.2 (c.withIndex y)).mono ?_
  rintro _ _ ⟨z, rfl⟩
  exact ⟨z, rfl⟩

/-! ## One record -/

theorem within_replayCapacity (capacity : CapacityMutation) :
    Op.Within Steady (replayCapacity capacity) := by
  unfold replayCapacity
  refine Op.within_bind (Op.within_each (fun resource => ?_) _) fun _ => ?_
  · refine Op.within_bind Op.within_get fun _ => ?_
    refine Op.within_bind (Op.within_lift _) fun _ => ?_
    exact Op.within_modify fun _ => ⟨rfl, rfl, rfl⟩
  refine Op.within_bind (Op.within_each (fun name => ?_) _) fun _ => ?_
  · refine Op.within_bind Op.within_get fun _ => ?_
    split
    · exact Op.within_modify fun _ => ⟨rfl, rfl, rfl⟩
    · exact Op.within_refuseIf _ _
  exact Op.within_modify fun _ => ⟨rfl, rfl, rfl⟩

theorem within_replayPaths (snapshot : PathAuthoritySnapshot) :
    Op.Within Steady (replayPaths snapshot) := by
  unfold replayPaths
  refine Op.within_bind (Op.within_each (fun path => ?_) _) fun _ => ?_
  · refine Op.within_bind Op.within_get fun _ => ?_
    refine Op.within_bind (Op.within_lift _) fun _ => ?_
    exact Op.within_modify fun _ => ⟨rfl, rfl, rfl⟩
  exact Op.within_modify fun _ => ⟨rfl, rfl, rfl⟩

/-- A stored record moves, or its absence ends the replay. -/
theorem within_replaySupersession (mutation : ReservationMutation) :
    Op.Within Steady (replaySupersession mutation) := by
  unfold replaySupersession
  refine Op.within_ite (Op.within_get_bind fun c => ?_) (Op.within_pure _)
  split
  · exact .refl c
  · exact Op.ensures_set (steady_moved c _ _ _)

theorem within_replayCompanion (companion : StateMutation) :
    Op.Within Steady (replayCompanion companion) := by
  unfold replayCompanion
  refine Op.within_get_bind fun c => ?_
  split
  · exact .refl c
  · exact steady_moved c _ _ _

theorem within_replayReservation (mutation : ReservationMutation) :
    Op.Within Steady (replayReservation mutation) := by
  unfold replayReservation
  refine Op.within_bind (within_replaySupersession mutation) fun _ => ?_
  refine Op.within_bind (Op.within_modify fun _ => ⟨rfl, rfl, rfl⟩) fun _ => ?_
  refine Op.within_bind (Op.within_modify fun c => ?_) fun _ => ?_
  · exact Steady.foldl steady_recallRecord _ c
  refine Op.within_bind (Op.within_modify fun c => ?_) fun _ => ?_
  · exact Steady.foldl steady_recallSeries _ c
  refine Op.within_bind (Op.within_each within_replayCompanion _) fun _ => ?_
  exact Op.within_modify fun c => steady_recallAttempt c _

theorem within_replayState (mutation : StateMutation) :
    Op.Within Steady (replayState mutation) := by
  unfold replayState
  refine Op.within_get_bind fun c => ?_
  split
  · exact .refl c
  · exact (steady_moved c _ _ _).trans (steady_recallAttempt _ _)

theorem within_replayApplicability (mutation : ApplicabilityMutation) :
    Op.Within Steady (replayApplicability mutation) := by
  unfold replayApplicability
  refine Op.within_get_bind fun c => ?_
  split
  · exact .refl c
  · exact steady_putRecord c _

/-- The epoch does not go back, and the handle and the configuration stay. -/
structure Replayed (c c' : Coordinator) : Prop where
  store : c'.store = c.store
  config : c'.config = c.config
  epoch : c.incarnation.epoch ≤ c'.incarnation.epoch

theorem Steady.replayed {c c' : Coordinator} (h : Steady c c') : Replayed c c' :=
  ⟨h.store, h.config, by rw [h.incarnation]⟩

instance : IsPreorder Coordinator Replayed where
  refl _ := ⟨rfl, rfl, le_rfl⟩
  trans _ _ _ h h' := ⟨h'.store.trans h.store, h'.config.trans h.config, le_trans h.epoch h'.epoch⟩

theorem Replayed.of_within {α : Type} {m : Method α} (h : Op.Within Steady m) :
    Op.Within Replayed m := fun c => (h c).mono fun _ _ steady => steady.replayed

theorem within_applyReplay (d : DurableRecord) : Op.Within Replayed (applyReplay d) := by
  cases d with
  | fabricBoot epoch =>
    refine Op.within_modify fun c => ?_
    split
    · rename_i newer
      exact ⟨rfl, rfl, le_of_lt newer⟩
    · exact (Steady.refl c).replayed
  | capacitySnapshot capacity => exact .of_within (within_replayCapacity capacity)
  | pathSnapshot path => exact .of_within (within_replayPaths path)
  | policyRecord policy =>
    refine .of_within (Op.within_bind Op.within_get fun _ => ?_)
    refine Op.within_bind (Op.within_lift _) fun _ => ?_
    exact Op.within_modify fun _ => ⟨rfl, rfl, rfl⟩
  | reservationCommit reservation => exact .of_within (within_replayReservation reservation)
  | reservationAmend reservation => exact .of_within (within_replayReservation reservation)
  | reservationSeries reservation => exact .of_within (within_replayReservation reservation)
  | reservationState state => exact .of_within (within_replayState state)
  | reservationApplicability applicability =>
    exact .of_within (within_replayApplicability applicability)
  | attemptOutcome attempt =>
    exact .of_within (Op.within_modify fun c => steady_rememberAttempt c attempt)
  | fence fence => exact .of_within (Op.within_modify fun c => steady_recallFence c fence)
  | claimantRegistration claimant =>
    exact .of_within (Op.within_modify fun c => steady_recallClaimant c claimant)
  | overcommit overcommit => exact .of_within (Op.within_modify fun _ => ⟨rfl, rfl, rfl⟩)
  | retire retire =>
    exact .of_within (Op.within_modify fun c => Steady.foldl steady_replayRetire _ c)

/-- A boot record brings the epoch up to its own. -/
theorem ensures_applyReplay_boot (m : EpochMutation) (c : Coordinator) :
    Op.Ensures (applyReplay (.fabricBoot m)) c (fun _ c' => m.epoch ≤ c'.incarnation.epoch) := by
  change m.epoch ≤ (if c.incarnation.epoch < m.epoch then
    { c with incarnation := { c.incarnation with epoch := m.epoch } } else c).incarnation.epoch
  split
  · exact le_rfl
  · rename_i newer
    exact not_lt.mp newer

theorem within_replayRecord (record : JournalRecord) : Op.Within Replayed (replayRecord record) := by
  unfold replayRecord
  dsimp only
  split
  · exact Op.within_throw _
  · refine Op.within_bind (Op.within_attempt (within_applyReplay _)) fun r => ?_
    split
    · exact Op.within_throw _
    · exact Op.within_pure _

/-! ## Snapshots -/

theorem applySnapshot_epoch (c : Coordinator) (state : SnapshotState) :
    (c.applySnapshot state).incarnation.epoch = state.epoch := by
  unfold applySnapshot
  dsimp only
  generalize hc₀ : (List.foldl recallPolicy _ state.policies) = c₀
  generalize hc₁ : ({ c₀ with
    incarnation := { c₀.incarnation with epoch := state.epoch } } : Coordinator) = c₁
  have epoch : c₁.incarnation.epoch = state.epoch := by rw [← hc₁]
  have reservations := Steady.foldl steady_recallRecord state.reservations c₁
  have series := Steady.foldl steady_recallSeries state.series
    (state.reservations.foldl recallRecord c₁)
  generalize state.series.foldl recallSeries (state.reservations.foldl recallRecord c₁) = c₂
    at series ⊢
  have edges : Steady c₂ { c₂ with edges := state.edges } := ⟨rfl, rfl, rfl⟩
  have attempts := Steady.foldl steady_rememberAttempt state.attempts
    { c₂ with edges := state.edges }
  have fences := Steady.foldl steady_recallFence state.fences
    (state.attempts.foldl rememberAttempt { c₂ with edges := state.edges })
  generalize state.fences.foldl recallFence
    (state.attempts.foldl rememberAttempt { c₂ with edges := state.edges }) = c₃ at fences ⊢
  have claimants := Steady.foldl steady_recallClaimant state.claimants c₃
  have overcommits := Steady.foldl steady_recallOvercommit state.overcommits
    (state.claimants.foldl recallClaimant c₃)
  have retired := Steady.foldl steady_recallRetired state.retired
    (state.overcommits.foldl recallOvercommit (state.claimants.foldl recallClaimant c₃))
  have all := (((((((reservations.trans series).trans edges).trans attempts).trans fences).trans
    claimants).trans overcommits).trans retired)
  rw [all.incarnation, epoch]

/-! ## Recovery -/

/-- The snapshot brings the epoch to its own. -/
theorem recoverSnapshot_epoch {payload : Text} {c c' : Coordinator}
    (h : (recoverSnapshot payload).exec c = (.ok (), c')) {state : SnapshotState}
    (written : payload = encode state) (len : (encode state).length < 4294967296) :
    c'.incarnation.epoch = state.epoch := by
  subst written
  have some_bytes : (encode state).isEmpty = false := by
    have pos := encode_pos state
    cases hs : encode state with
    | nil => simp [hs] at pos
    | cons => rfl
  unfold recoverSnapshot at h
  rw [some_bytes] at h
  simp only [Bool.not_false, if_true] at h
  cases decoded : (decode : Reader Error SnapshotState).run (encode state) with
  | error e =>
    rw [decoded] at h
    exact absurd (congrArg Prod.fst h) (by simp)
  | ok found =>
    obtain ⟨found, rest⟩ := found
    obtain ⟨rfl, rfl, -⟩ := decodeSnapshot_sound len decoded
    rw [decoded] at h
    obtain ⟨_, c₁, checked, applied⟩ := Op.exec_bind_ok h
    have same : c₁ = c := (congrArg Prod.snd checked).symm
    have done : c' = c₁.applySnapshot found := (congrArg Prod.snd applied).symm
    rw [done, applySnapshot_epoch]

/-- A boot record that is replayed brings the epoch up to its own. -/
theorem replayRecord_boot {record : JournalRecord} {m : EpochMutation} {c c' : Coordinator}
    (h : (replayRecord record).exec c = (.ok (), c')) (kind : record.kind = .fabricBoot)
    (written : record.payload = encodeRecord (.fabricBoot m))
    (len : record.payload.length < 4294967296) : m.epoch ≤ c'.incarnation.epoch := by
  unfold replayRecord at h
  rw [kind, written] at h
  rw [written] at len
  dsimp only at h
  cases decoded : decodeRecord (encodeRecord (.fabricBoot m)) .fabricBoot with
  | error e =>
    rw [decoded] at h
    exact absurd (congrArg Prod.fst h) (by simp)
  | ok found =>
    obtain ⟨rfl, -⟩ := decodeRecord_sound (v := .fabricBoot m) len decoded
    rw [decoded] at h
    obtain ⟨r, c₁, applied, rest⟩ := Op.exec_bind_ok h
    have done : c' = c₁ := by
      cases r with
      | error e => exact absurd (congrArg Prod.fst rest) (by simp)
      | ok _ => exact (congrArg Prod.snd rest).symm
    have moved : c₁ = ((applyReplay (.fabricBoot m)).exec c).2 := (congrArg Prod.snd applied).symm
    rw [done, moved]
    exact ensures_applyReplay_boot m c

/-- What recovery is made of. -/
theorem recover_run {config : Config} {disk : Disk} {faults : List Bool} {c : Coordinator}
    (h : recover config disk faults = .ok c) : ∃ store c₁ c₂,
      Store.openStore disk faults = .ok (store, disk.tail) ∧ store.disk = disk ∧ store.InOrder ∧
      store.journalOpen = true ∧
      (recoverSnapshot disk.payload).exec { config, store } = (.ok (), c₁) ∧
      (Op.each replayRecord disk.tail).exec c₁ = (.ok (), c₂) ∧
      rebuildIndex.exec c₂.rebuildQueues = (.ok (), c) := by
  unfold recover at h
  obtain ⟨⟨store, records⟩, opened, h⟩ := Result.bind_eq_ok.mp h
  obtain ⟨rfl, same, isOpen, inOrder, -⟩ := Store.openStore_ok opened
  dsimp only at h
  generalize run : Op.exec (recoverFrom store disk.tail) { config, store } = ended at h
  obtain ⟨result, c'⟩ := ended
  obtain ⟨⟨⟩, rfl, h⟩ := Result.bind_eq_ok.mp h
  obtain rfl := Except.ok.inj h
  have payload : store.snapshotPayload = disk.payload := by rw [← same]; rfl
  obtain ⟨_, c₁, snapshot, run⟩ := Op.exec_bind_ok run
  obtain ⟨_, c₂, replayed, run⟩ := Op.exec_bind_ok run
  obtain ⟨_, c₃, queued, indexed⟩ := Op.exec_bind_ok run
  obtain rfl : c₂.rebuildQueues = c₃ := congrArg Prod.snd queued
  rw [payload] at snapshot
  exact ⟨store, c₁, c₂, opened, same, inOrder, isOpen, snapshot, replayed, indexed⟩

/-- The same, with the index left open. -/
theorem recover_ok {config : Config} {disk : Disk} {faults : List Bool} {c : Coordinator}
    (h : recover config disk faults = .ok c) : ∃ store c₁ c₂ y,
      Store.openStore disk faults = .ok (store, disk.tail) ∧ store.disk = disk ∧ store.InOrder ∧
      store.journalOpen = true ∧
      (recoverSnapshot disk.payload).exec { config, store } = (.ok (), c₁) ∧
      (Op.each replayRecord disk.tail).exec c₁ = (.ok (), c₂) ∧
      c = c₂.rebuildQueues.withIndex y := by
  obtain ⟨store, c₁, c₂, opened, same, inOrder, isOpen, snapshot, replayed, indexed⟩ := recover_run h
  obtain ⟨y, rfl⟩ := (ensures_rebuildIndex_shape c₂.rebuildQueues).of_run indexed
  exact ⟨store, c₁, c₂, y, opened, same, inOrder, isOpen, snapshot, replayed, rfl⟩

/-- **The recovered epoch** is at least that of the snapshot and of every boot record behind it. -/
theorem recover_epoch {config : Config} {disk : Disk} {faults : List Bool} {c : Coordinator}
    (h : recover config disk faults = .ok c) :
    (∀ state : SnapshotState, disk.payload = encode state → (encode state).length < 4294967296 →
      state.epoch ≤ c.incarnation.epoch) ∧
    ∀ record ∈ disk.tail, ∀ m, record.kind = .fabricBoot →
      record.payload = encodeRecord (.fabricBoot m) → record.payload.length < 4294967296 →
      m.epoch ≤ c.incarnation.epoch := by
  obtain ⟨store, c₁, c₂, y, -, -, -, -, snapshot, replayed, rfl⟩ := recover_ok h
  have last : (c₂.rebuildQueues.withIndex y).incarnation = c₂.incarnation :=
    (steady_rebuildQueues c₂).incarnation
  have rises : ∀ (records : List JournalRecord) (a b : Coordinator),
      (Op.each replayRecord records).exec a = (.ok (), b) →
        a.incarnation.epoch ≤ b.incarnation.epoch := by
    intro records a b run
    have within := Op.within_each within_replayRecord records a
    unfold Op.Ensures at within
    rw [run] at within
    exact within.epoch
  rw [last]
  constructor
  · intro state written len
    rw [← recoverSnapshot_epoch snapshot written len]
    exact rises _ _ _ replayed
  · intro record mem m kind written len
    obtain ⟨before, behind, split⟩ := List.append_of_mem mem
    rw [split] at replayed
    obtain ⟨a, b, -, here, later⟩ := Op.each_split_ok replayed
    exact le_trans (replayRecord_boot here kind written len) (rises _ _ _ later)

end Coordinator

end Brf
