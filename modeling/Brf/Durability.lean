import Brf.Commitments
import Brf.RecoveryLaws
import Mathlib.Data.List.Perm.Basic

/-!
# What the directory holds

The directory as what was written into it, and what every move adds to it.

* `Contents` are the state of the snapshot and the records behind it; `Written disk x` says that the
  bytes of the directory spell `x`.
* `Move.logs` is what a move appends, `Move.leaves` what the directory holds after it.
* `Contents.Sound`: whatever is read back can be indexed.

Results: `written_takes` (a move leaves what `Move.leaves` says), `recover_written` (recovery applies
the snapshot and then the records, in order), and `sound_leaves`.
-/

namespace Brf

open Brf.Lib

/-- The snapshot of a directory and the records behind it. -/
structure Contents where
  base : Option SnapshotState := none
  tail : List DurableRecord := []

/-- The bytes of the directory spell these contents. -/
structure Written (disk : Disk) (x : Contents) : Prop where
  base : disk.payload = (x.base.map encode).getD []
  small : ∀ s ∈ x.base, (encode s).length ≤ maxSnapshotPayload
  tail : disk.tail.map (fun r => (r.kind, r.payload)) = x.tail.map fun d => (d.kind, encodeRecord d)
  fits : ∀ d ∈ x.tail, (encodeRecord d).length ≤ maxRecordPayload

theorem Written.same {disk : Disk} {x : Contents} (w : Written disk x) :
    Written disk { x with tail := x.tail ++ [] } := by
  rw [List.append_nil]
  exact w

namespace Coordinator

/-- What a move appends to the journal. -/
def Move.logs (c : Coordinator) : Move → List DurableRecord
  | .boot identity now =>
    [.fabricBoot { epoch := c.incarnation.epoch + 1, coordinatorBoot := identity, at' := now }]
  | .claimant registration => [.claimantRegistration registration]
  | .refusal attempt => [.attemptOutcome attempt]
  | .transition r target now reason context _ =>
    [.reservationState (transitionMutation r target now reason context 0)]
  | .pendRecall r now reason context effect _ =>
    [.reservationState (transitionMutation r .recallPending now reason context effect)]
  | .mark r applicability reason now =>
    [.reservationApplicability
      { id := r.id, generation := r.generation, applicability, reason, at' := now }]
  | .create p victims => [.reservationCommit (c.createMutation p victims)]
  | .amend _ _ _ mutation => [.reservationAmend mutation]
  | .revalidate r binding now context =>
    [.reservationAmend
      (c.revalidationMutation r (c.revalidatedSuccessor r binding now context) now)]
  | .capacity now stated _ _ withdrawn =>
    [.capacitySnapshot { snapshot := { stated with ingestedAt := now }, withdrawals := withdrawn }]
  | .paths now stated _ => [.pathSnapshot { stated with ingestedAt := now }]
  | .policy now record => [.policyRecord { record with ingestedAt := now }]
  | .fence record => [.fence record]
  | .overcommit mutation => [.overcommit mutation]
  | .retire now =>
    [.retire
      { ids := c.retireBatch.map ReservationKey.id
        generations := c.retireBatch.map ReservationKey.generation
        at' := now }]
  | _ => []

/-- What the directory holds after a move. -/
def Move.leaves (c : Coordinator) (x : Contents) : Move → Contents
  | .snapshot => { base := some c.snapshotState }
  | m => { x with tail := x.tail ++ m.logs c }

/-! ## The pure forms leave the handle alone -/

theorem steady_moveRecord (c : Coordinator) (r next : ReservationRecord) :
    Steady c (c.moveRecord r next) := steady_moved c r.state next.state next

theorem steady_moveStored (next : ReservationRecord → ReservationRecord) (c : Coordinator)
    (key : ReservationKey) : Steady c (moveStored next c key) := by
  unfold moveStored
  split
  · exact .refl c
  · exact steady_moveRecord c _ _

theorem steady_consumeHold (p : CreatePlan) (c : Coordinator) (id : HoldId) :
    Steady c (consumeHold p c id) := by
  unfold consumeHold
  split
  · exact .refl c
  · exact ⟨rfl, rfl, rfl⟩

theorem steady_putSeries (c : Coordinator) (series : ReservationSeries) :
    Steady c (c.putSeries series) := ⟨rfl, rfl, rfl⟩

theorem steady_afterCreate (c : Coordinator) (p : CreatePlan) (mutation : ReservationMutation)
    (sequence : DurableSequence) : Steady c (c.afterCreate p mutation sequence) := by
  unfold afterCreate
  dsimp only
  have companions := Steady.foldl (f := companionDone) (fun d _ => steady_moveStored _ d _)
    mutation.companions c
  have records := Steady.foldl steady_recallRecord (mutation.record :: mutation.members)
    (mutation.companions.foldl companionDone c)
  generalize (mutation.record :: mutation.members).foldl recallRecord
    (mutation.companions.foldl companionDone c) = d at records ⊢
  have series : Steady d (mutation.series.toList.foldl putSeries d) :=
    Steady.foldl steady_putSeries _ d
  generalize mutation.series.toList.foldl putSeries d = d' at series ⊢
  have attempt := steady_rememberAttempt d' (attemptFor p.context p.fingerprint .committable
    mutation.record.key sequence p.terms.claimant p.now)
  generalize d'.rememberAttempt (attemptFor p.context p.fingerprint .committable
    mutation.record.key sequence p.terms.claimant p.now) = d'' at attempt ⊢
  have holds := Steady.foldl (steady_consumeHold p) p.holds d''
  have done : Steady (p.holds.foldl (consumeHold p) d'')
    { p.holds.foldl (consumeHold p) d'' with suspended := [] } := ⟨rfl, rfl, rfl⟩
  exact companions.trans (records.trans (series.trans (attempt.trans (holds.trans done))))

theorem steady_afterAmend (c : Coordinator) (p : AmendPlan)
    (superseded successors : List ReservationRecord) (mutation : ReservationMutation)
    (provenance : Provenance) (sequence : DurableSequence) :
    Steady c (c.afterAmend p superseded successors mutation provenance sequence) := by
  unfold afterAmend
  dsimp only
  have moved := Steady.foldl (f := supersedeDone p provenance)
    (fun d _ => steady_moveStored _ d _) superseded c
  generalize superseded.foldl (supersedeDone p provenance) c = d at moved ⊢
  have edges : Steady d { d with edges := d.edges ++ mutation.edge.toList } := ⟨rfl, rfl, rfl⟩
  have records := Steady.foldl steady_recallRecord successors
    { d with edges := d.edges ++ mutation.edge.toList }
  generalize successors.foldl recallRecord { d with edges := d.edges ++ mutation.edge.toList } = d'
    at records ⊢
  have series : Steady d' (mutation.series.toList.foldl putSeries d') :=
    Steady.foldl steady_putSeries _ d'
  exact moved.trans (edges.trans (records.trans (series.trans ⟨rfl, rfl, rfl⟩)))

theorem steady_afterRevalidation (c : Coordinator) (r : ReservationRecord) (now : Timestamp)
    (mutation : ReservationMutation) (provenance : Provenance) :
    Steady c (c.afterRevalidation r now mutation provenance) := by
  unfold afterRevalidation
  dsimp only
  have moved := steady_moveRecord c r (revalidatedForm r now provenance)
  generalize c.moveRecord r (revalidatedForm r now provenance) = d at moved ⊢
  have edges : Steady d { d with edges := d.edges ++ mutation.edge.toList } := ⟨rfl, rfl, rfl⟩
  have record := steady_recallRecord { d with edges := d.edges ++ mutation.edge.toList }
    mutation.record
  exact moved.trans (edges.trans (record.trans ⟨rfl, rfl, rfl⟩))

/-! ## What a move writes -/

/-- What one move does to the store, and what the directory then holds: nothing, one record more, a
snapshot, or a rotation behind a snapshot. -/
inductive Stores (c : Coordinator) (x : Contents) : Store → Contents → Prop
  | same (t : Store) (disk : t.disk = c.store.disk)
      (lastSequence : t.lastSequence = c.store.lastSequence) :
      Stores c x t { x with tail := x.tail ++ [] }
  | logged (d : DurableRecord) (faults : List Bool) (w : c.store.Writable (encodeRecord d)) :
      Stores c x (c.store.logged d.kind (encodeRecord d) faults) { x with tail := x.tail ++ [d] }
  | snapshot (faults : List Bool) (small : (encode c.snapshotState).length ≤ maxSnapshotPayload) :
      Stores c x (c.store.withSnapshot (encode c.snapshotState) faults)
        { base := some c.snapshotState }
  | rotated (journalOpen : Bool) (journalBytes : Nat) (faults : List Bool)
      (taken : c.store.disk.snapshot =
        some ⟨c.store.lastSequence, encode c.snapshotState⟩) :
      Stores c x (c.store.rotated journalOpen journalBytes faults)
        { x with tail := x.tail ++ [] }

/-- A move that appends one record and then leaves the store alone. -/
theorem stores_logged {d : DurableRecord} {c₀ c c₁ c' : Coordinator} {x : Contents}
    (appended : Appended d c c₁) (store : c'.store = c₁.store) (same : c.store = c₀.store) :
    Stores c₀ x c'.store { x with tail := x.tail ++ [d] } := by
  obtain ⟨writable, faults, rfl⟩ := appended
  rw [store]
  change Stores c₀ x (c.store.logged d.kind (encodeRecord d) faults) _
  rw [same] at writable ⊢
  exact .logged d faults writable

/-- **A move** makes one change to the store at most. -/
theorem stores_takes {c c' : Coordinator} (idle : Idle c) {m : Move} (takes : m.Takes c c')
    (x : Contents) : Stores c x c'.store (m.leaves c x) := by
  cases m with
  | quiet =>
    obtain ⟨faults, stats, rfl⟩ := takes
    exact .same _ rfl rfl
  | shutdown =>
    obtain rfl := takes
    exact .same _ rfl rfl
  | snapshot =>
    obtain ⟨small, faults, rfl⟩ := takes
    exact .snapshot faults small
  | rotate =>
    obtain ⟨taken, journalOpen, journalBytes, faults, rfl⟩ := takes
    exact .rotated journalOpen journalBytes faults taken
  | boot boot now =>
    obtain ⟨-, c₁, appended, rfl⟩ := takes
    exact stores_logged appended rfl rfl
  | claimant registration =>
    obtain ⟨-, -, c₁, appended, rfl⟩ := takes
    exact stores_logged appended rfl rfl
  | refusal attempt =>
    obtain ⟨-, -, c₁, appended, rfl⟩ := takes
    exact stores_logged appended rfl rfl
  | transition r target now reason context retained =>
    obtain ⟨faults, y, appended, rfl, -⟩ := takes_transition idle takes
    refine stores_logged appended ?_ rfl
    cases retained with
    | false => exact (steady_moveRecord _ r _).store
    | true => exact (steady_moveRecord _ r _).store
  | pendRecall r now reason context effect grace =>
    obtain ⟨faults, y, appended, rfl, -⟩ := takes_recall idle takes
    refine stores_logged appended ?_ rfl
    exact ((steady_moveRecord _ r _).trans (steady_moveRecord _ _ _)).store
  | mark r applicability reason now =>
    obtain ⟨faults, y, appended, rfl, -⟩ := takes_mark idle takes
    exact stores_logged appended (steady_moveRecord _ r _).store rfl
  | create p victims =>
    obtain ⟨faults, y, appended, rfl, -⟩ := takes_create idle takes
    exact stores_logged appended (steady_afterCreate _ p _ _).store rfl
  | amend p superseded successors mutation =>
    obtain ⟨-, faults, y, appended, rfl, -⟩ := takes_amend idle takes
    exact stores_logged appended (steady_afterAmend _ p _ _ _ _ (c.store.lastSequence + 1)).store rfl
  | revalidate r binding now context =>
    obtain ⟨faults, y, appended, rfl, -⟩ := takes_revalidate idle takes
    exact stores_logged appended (steady_afterRevalidation _ r _ _ _).store rfl
  | reindexed =>
    obtain ⟨y, rfl, -, -⟩ := takes
    exact .same _ rfl rfl
  | releaseHold now id reason =>
    obtain ⟨-, rfl⟩ := takes
    obtain ⟨holds, y, left, -, -⟩ := holdsOnly_releaseHold idle.consistent.index now id reason
    rw [left]
    exact .same _ rfl rfl
  | grantHold hold terms binding =>
    obtain ⟨-, c₁, run, rfl⟩ := takes
    obtain ⟨holds, y, rfl, -, -⟩ := (holdsOnly_indexHolds hold
      idle.consistent.index).of_run run
    exact .same _ rfl rfl
  | refuseHold hold =>
    obtain ⟨e, run⟩ := takes
    obtain ⟨holds, y, rfl, -, -⟩ := (holdsOnly_indexHolds hold
      idle.consistent.index).of_run run
    exact .same _ rfl rfl
  | capacity now stated withdrawals applied withdrawn =>
    obtain ⟨-, -, -, c₁, c₂, c₃, applies, withdraws, appended, rfl⟩ := takes
    have first := (within_applyCapacities stated.id now stated.resources c).of_run applies
    have second := (within_withdrawAll now withdrawals c₁).of_run withdraws
    obtain ⟨ledger, rfl, -⟩ := first.trans second
    exact stores_logged appended rfl rfl
  | sawCapacity stated =>
    obtain rfl := takes
    exact .same _ rfl rfl
  | ledger table =>
    obtain ⟨-, rfl⟩ := takes
    exact .same _ rfl rfl
  | paths now stated changed =>
    obtain ⟨-, c₁, c₂, applies, appended, rfl⟩ := takes
    obtain ⟨paths, rfl⟩ := (within_applyPaths stated.id now stated.paths c).of_run applies
    exact stores_logged appended rfl rfl
  | pathTable table =>
    obtain rfl := takes
    exact .same _ rfl rfl
  | policy now record =>
    obtain ⟨policies, c₁, -, appended, rfl⟩ := takes
    exact stores_logged appended rfl rfl
  | policyTable registry =>
    obtain rfl := takes
    exact .same _ rfl rfl
  | fence record =>
    obtain ⟨c₁, appended, rfl⟩ := takes
    exact stores_logged appended rfl rfl
  | overcommit mutation =>
    obtain ⟨c₁, appended, rfl⟩ := takes
    exact stores_logged appended rfl rfl
  | retire now =>
    obtain ⟨-, c₁, appended, rfl⟩ := takes
    refine stores_logged appended ?_ rfl
    refine (Steady.foldl (f := retireRecord now) (fun d key => ?_) _ c₁).store
    unfold retireRecord
    split
    · exact .refl d
    · exact ⟨rfl, rfl, rfl⟩

/-- **A move leaves** in the directory what `Move.leaves` says. -/
theorem written_takes {c c' : Coordinator} (idle : Idle c) {m : Move} (takes : m.Takes c c')
    {x : Contents} (w : Written c.store.disk x) : Written c'.store.disk (m.leaves c x) := by
  have order := idle.consistent.store
  have stores := stores_takes idle takes x
  generalize c'.store = t, m.leaves c x = x' at stores ⊢
  cases stores with
  | same t disk lastSequence =>
    rw [disk]
    exact w.same
  | logged d faults writable =>
    refine ⟨w.base, w.small, ?_, fun d' mem => ?_⟩
    · rw [Store.tail_logged order writable d.kind faults, List.map_append, w.tail, List.map_append]
      rfl
    · rcases List.mem_append.mp mem with mem | mem
      · exact w.fits d' mem
      · rw [List.mem_singleton.mp mem]
        exact writable.fits
  | snapshot faults small =>
    refine ⟨rfl, ?_, ?_, fun _ no => absurd no List.not_mem_nil⟩
    · rintro s ⟨⟩
      exact small
    · rw [Store.tail_withSnapshot order]
      rfl
  | rotated journalOpen journalBytes faults taken =>
    have same := w.tail
    rw [Store.tail_taken order taken] at same
    exact Written.same ⟨w.base, w.small, same, w.fits⟩

/-- **A move** never takes back a sequence, and a record takes the next one. -/
theorem sequence_takes {c c' : Coordinator} (idle : Idle c) {m : Move} (takes : m.Takes c c') :
    c.store.lastSequence ≤ c'.store.lastSequence ∧
      (m.logs c ≠ [] → c'.store.lastSequence.val = c.store.lastSequence.val + 1) := by
  have stores := stores_takes idle takes { tail := [] }
  have tail : (m.leaves c { tail := [] }).tail = m.logs c := by
    cases m <;> rfl
  generalize c'.store = t, m.leaves c { tail := [] } = x' at stores tail ⊢
  cases stores with
  | same t disk lastSequence => exact ⟨lastSequence.ge, fun logs => absurd tail.symm logs⟩
  | logged d faults writable =>
    obtain ⟨later, next⟩ := Store.lt_add_one writable.room
    exact ⟨later.le, fun _ => next⟩
  | snapshot faults small => exact ⟨le_rfl, fun logs => absurd tail.symm logs⟩
  | rotated journalOpen journalBytes faults taken =>
    exact ⟨le_rfl, fun logs => absurd tail.symm logs⟩

theorem Runs.sequence {P : Move → Prop} {c c' : Coordinator} (idle : Idle c) (h : Runs P c c') :
    c.store.lastSequence ≤ c'.store.lastSequence := by
  refine ((h idle).2.invariant_idle idle
    (I := fun e => c.store.lastSequence ≤ e.store.lastSequence) ?_ le_rfl).2
  rintro e e' m eIdle before - takes
  exact before.trans (sequence_takes eIdle takes).1

/-- A move leaves a directory that tells the last sequence. -/
theorem level_takes {c c' : Coordinator} (idle : Idle c) {m : Move} (takes : m.Takes c c')
    (level : c.store.Level) : c'.store.Level := by
  have order := idle.consistent.store
  have stores := stores_takes idle takes {}
  generalize c'.store = t, m.leaves c {} = x' at stores ⊢
  cases stores with
  | same t disk lastSequence =>
    unfold Store.Level
    rw [disk, lastSequence]
    exact level
  | logged d faults writable =>
    unfold Store.Level Disk.last
    rw [Store.tail_logged order writable d.kind faults, List.getLast?_append_cons]
    rfl
  | snapshot faults small =>
    unfold Store.Level Disk.last
    rw [Store.tail_withSnapshot order]
    rfl
  | rotated journalOpen journalBytes faults taken =>
    unfold Store.Level Disk.last Disk.floor
    rw [Store.tail_rotated]
    change _ = (c.store.disk.snapshot.map SnapshotFile.sequence).getD 0
    rw [taken]
    rfl

/-! ## What is written can be indexed -/

/-- The generations a record registers. -/
def registers : DurableRecord → List ReservationRecord
  | .reservationCommit m | .reservationAmend m | .reservationSeries m => m.record :: m.members
  | _ => []

/-- The snapshot of a consistent state. -/
structure SoundSnapshot (s : SnapshotState) : Prop where
  reservations : ∀ r ∈ s.reservations, r.Sound
  retired : ∀ r ∈ s.retired, r.Sound
  capacity : ∀ e ∈ s.capacity, e.capacity.resource.empty = false

/-- Contents that consistent states have written. -/
structure SoundContents (x : Contents) : Prop where
  base : ∀ s ∈ x.base, SoundSnapshot s
  tail : ∀ d ∈ x.tail, ∀ r ∈ registers d, r.Sound

theorem Consistent.soundSnapshot {c : Coordinator} (h : Consistent c) :
    SoundSnapshot c.snapshotState where
  reservations r mem := by
    obtain ⟨k, stored⟩ := Map.mem_values.mp mem
    exact h.sound k r stored
  retired r mem := by
    obtain ⟨id, stored⟩ := Map.mem_values.mp mem
    exact (h.archive id r stored).2
  capacity e mem := by
    obtain ⟨n, stored⟩ := Map.mem_values.mp mem
    obtain ⟨rfl, named⟩ := h.ledger n e stored
    exact named

/-- What a move registers is sound. -/
theorem sound_logs {c c' : Coordinator} (idle : Idle c) {m : Move} (takes : m.Takes c c') :
    ∀ d ∈ m.logs c, ∀ r ∈ registers d, r.Sound := by
  intro d mem r registered
  cases m with
  | create p victims =>
    obtain rfl := List.mem_singleton.mp mem
    obtain ⟨admitted, -⟩ := takes
    have windows := (expandSeries_length admitted.intervals).2
    change r ∈ (c.createMutation p victims).record :: (c.createMutation p victims).members
      at registered
    rw [createMutation_records c victims windows] at registered
    exact sound_createRecords idle.consistent admitted r registered
  | amend p superseded successors mutation =>
    obtain rfl := List.mem_singleton.mp mem
    obtain ⟨made, -⟩ := takes_amend idle takes
    exact sound_amendMutation idle.consistent takes.1 made r
      ((amendMutation_successors made).1.mem_iff.mp registered)
  | revalidate r' binding now context =>
    obtain rfl := List.mem_singleton.mp mem
    obtain ⟨resolved, stored, -⟩ := takes
    obtain rfl := List.mem_singleton.mp registered
    exact sound_of_bound (resolveBinding_bound idle.consistent resolved) rfl
      (idle.consistent.sound _ _ stored).amount
  | _ =>
    first
      | exact absurd mem List.not_mem_nil
      | (obtain rfl := List.mem_singleton.mp mem
         exact absurd registered List.not_mem_nil)

theorem sound_leaves {c c' : Coordinator} (idle : Idle c) {m : Move} (takes : m.Takes c c')
    {x : Contents} (h : SoundContents x) : SoundContents (m.leaves c x) := by
  have added := sound_logs idle takes
  by_cases snapshot : m = .snapshot
  · subst snapshot
    refine ⟨?_, fun _ no => absurd no List.not_mem_nil⟩
    rintro s ⟨⟩
    exact idle.consistent.soundSnapshot
  · have leaves : m.leaves c x = { x with tail := x.tail ++ m.logs c } := by
      cases m <;> first | rfl | exact absurd rfl snapshot
    rw [leaves]
    refine ⟨h.base, fun d mem => ?_⟩
    rcases List.mem_append.mp mem with mem | mem
    · exact h.tail d mem
    · exact added d mem

end Coordinator

end Brf
