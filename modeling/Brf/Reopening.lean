import Brf.Durability

/-!
# Opening what was written

The recovery of a directory, as applying its contents in order.

* A `Recollection` is what replay adds to the store: a registered record, an archived one, a retained
  attempt, a retirement. `Recalls ts c c'`: replay has led from `c` to `c'` by the recollections `ts`,
  and otherwise has only moved records that were there.
* `Contents.recollections` are those of a directory, in order.
* `Rebuilt` is what of `Consistent` does not concern the handle and the index.

Results: `recover_written`, `recalls_recover` (recovery makes the recollections of the directory, from
an empty coordinator), and `idle_recover`: what consistent states have written is recovered to an
idle state.
-/

namespace Brf

open Brf.Lib

namespace Coordinator

/-! ## Decoding -/

/-- What was written as one record is replayed as that record. -/
theorem replayRecord_written {record : JournalRecord} {d : DurableRecord} {c c' : Coordinator}
    (kind : record.kind = d.kind) (payload : record.payload = encodeRecord d)
    (fits : (encodeRecord d).length ≤ maxRecordPayload)
    (h : (replayRecord record).exec c = (.ok (), c')) : (applyReplay d).exec c = (.ok (), c') := by
  unfold replayRecord at h
  rw [kind, payload] at h
  dsimp only at h
  cases decoded : decodeRecord (encodeRecord d) d.kind with
  | error e =>
    rw [decoded] at h
    exact absurd (congrArg Prod.fst h) (by simp)
  | ok found =>
    have len : (encodeRecord d).length < 4294967296 := lt_of_le_of_lt fits (by decide)
    obtain ⟨rfl, -⟩ := decodeRecord_sound len decoded
    rw [decoded] at h
    obtain ⟨r, c₁, applied, rest⟩ := Op.exec_bind_ok h
    rw [Op.exec_attempt] at applied
    obtain ⟨same, rfl⟩ := Prod.mk.inj applied
    obtain rfl := Except.ok.inj same
    rcases run : (applyReplay found).exec c with ⟨e | ⟨⟩, c₁⟩
    · rw [run] at rest
      exact absurd (congrArg Prod.fst rest) (by simp)
    · rw [run] at rest
      rw [show c₁ = c' from congrArg Prod.snd rest]

theorem replayRecords_written : ∀ {records : List JournalRecord} {ds : List DurableRecord}
    {c c' : Coordinator},
    records.map (fun r => (r.kind, r.payload)) = ds.map (fun d => (d.kind, encodeRecord d)) →
      (∀ d ∈ ds, (encodeRecord d).length ≤ maxRecordPayload) →
      (Op.each replayRecord records).exec c = (.ok (), c') →
      (Op.each applyReplay ds).exec c = (.ok (), c')
  | [], [], _, _, _, _, h => h
  | [], _ :: _, _, _, same, _, _ => absurd same (by simp)
  | _ :: _, [], _, _, same, _, _ => absurd same (by simp)
  | r :: records, d :: ds, c, c', same, fits, h => by
    rw [List.map_cons, List.map_cons] at same
    obtain ⟨head, rest⟩ := List.cons.inj same
    obtain ⟨kind, payload⟩ := Prod.mk.inj head
    obtain ⟨here, fits⟩ := List.forall_mem_cons.mp fits
    obtain ⟨⟨⟩, c₁, first, later⟩ := Op.exec_bind_ok h
    exact (Op.exec_bind_of_ok (replayRecord_written kind payload here first)).trans
      (replayRecords_written rest fits later)

/-- The state that replay starts from. -/
def startFrom (base : Option SnapshotState) (c : Coordinator) : Coordinator :=
  match base with
  | none => c
  | some s => c.applySnapshot s

theorem recoverSnapshot_written {base : Option SnapshotState} {c c' : Coordinator}
    (small : ∀ s ∈ base, (encode s).length ≤ maxSnapshotPayload)
    (h : (recoverSnapshot ((base.map encode).getD [])).exec c = (.ok (), c')) :
    c' = startFrom base c := by
  cases base with
  | none => exact (congrArg Prod.snd h).symm
  | some s =>
    have len : (encode s).length < 4294967296 := lt_of_le_of_lt (small s rfl) (by decide)
    have some_bytes : (encode s).isEmpty = false := by
      have pos := encode_pos s
      cases hs : encode s with
      | nil => simp [hs] at pos
      | cons => rfl
    unfold recoverSnapshot at h
    rw [Option.map_some, Option.getD_some, some_bytes] at h
    simp only [Bool.not_false, if_true] at h
    cases decoded : (decode : Reader Error SnapshotState).run (encode s) with
    | error e =>
      rw [decoded] at h
      exact absurd (congrArg Prod.fst h) (by simp)
    | ok found =>
      obtain ⟨found, rest⟩ := found
      obtain ⟨rfl, rfl, -⟩ := decodeSnapshot_sound len decoded
      rw [decoded] at h
      exact (congrArg Prod.snd h).symm

/-- **Recovery** applies the snapshot, and then the records behind it in order. -/
theorem recover_written {config : Config} {disk : Disk} {faults : List Bool} {c : Coordinator}
    {x : Contents} (w : Written disk x) (h : recover config disk faults = .ok c) :
    ∃ store c₁, store.disk = disk ∧ (store.InOrder ∧ store.Level) ∧
      (Op.each applyReplay x.tail).exec (startFrom x.base { config, store }) = (.ok (), c₁) ∧
      rebuildIndex.exec c₁.rebuildQueues = (.ok (), c) := by
  obtain ⟨store, c₁, c₂, opened, same, inOrder, -, snapshot, replayed, indexed⟩ := recover_run h
  rw [w.base] at snapshot
  obtain rfl := recoverSnapshot_written w.small snapshot
  obtain ⟨-, -, -, -, level⟩ := Store.openStore_ok opened
  exact ⟨store, c₂, same, ⟨inOrder, level⟩, replayRecords_written w.tail w.fits replayed, indexed⟩

/-! ## What replay does -/

/-- What replay adds to the store. -/
inductive Recollection where
  | record (r : ReservationRecord)
  | archived (r : ReservationRecord)
  | attempt (a : AttemptRecord)
  | retire (key : ReservationKey)

/-- The state with one recollection more. -/
def recollect (c : Coordinator) : Recollection → Coordinator
  | .record r => c.recallRecord r
  | .archived r => c.recallRetired r
  | .attempt a => c.rememberAttempt a
  | .retire key => c.replayRetire key

/-- Nothing but ledgers, series, edges, fences and the incarnation has changed. -/
structure Elsewhere (c c' : Coordinator) : Prop where
  store : c'.store = c.store
  config : c'.config = c.config
  records : c'.records = c.records
  retired : c'.retired = c.retired
  currentGeneration : c'.currentGeneration = c.currentGeneration
  liveCount : c'.liveCount = c.liveCount
  historyCount : c'.historyCount = c.historyCount
  attempts : c'.attempts = c.attempts
  attemptOrder : c'.attemptOrder = c.attemptOrder
  suspended : c'.suspended = c.suspended
  ledger : NamedLedger c.ledger → NamedLedger c'.ledger

theorem Elsewhere.refl (c : Coordinator) : Elsewhere c c :=
  ⟨rfl, rfl, rfl, rfl, rfl, rfl, rfl, rfl, rfl, rfl, fun h => h⟩

instance : IsPreorder Coordinator Elsewhere where
  refl := Elsewhere.refl
  trans _ _ _ h h' := ⟨h'.store.trans h.store, h'.config.trans h.config,
    h'.records.trans h.records, h'.retired.trans h.retired,
    h'.currentGeneration.trans h.currentGeneration, h'.liveCount.trans h.liveCount,
    h'.historyCount.trans h.historyCount, h'.attempts.trans h.attempts,
    h'.attemptOrder.trans h.attemptOrder, h'.suspended.trans h.suspended,
    fun named => h'.ledger (h.ledger named)⟩

/-- One step of replay, with what it adds. -/
inductive Recall : List Recollection → Coordinator → Coordinator → Prop
  | moved (c : Coordinator) (key : ReservationKey) (r next : ReservationRecord)
      (stored : c.records[key]? = some r) (named : next.key = r.key) (terms : next.terms = r.terms)
      (authority : next.authority = r.authority) : Recall [] c (c.moveRecord r next)
  | put (c : Coordinator) (key : ReservationKey) (r next : ReservationRecord)
      (stored : c.records[key]? = some r) (named : next.key = r.key) (terms : next.terms = r.terms)
      (authority : next.authority = r.authority) : Recall [] c (c.putRecord next)
  | elsewhere (c c' : Coordinator) (same : Elsewhere c c') : Recall [] c c'
  | recollect (c : Coordinator) (t : Recollection) : Recall [t] c (c.recollect t)

/-- Steps of replay, with what they add in order. -/
inductive Recalls : List Recollection → Coordinator → Coordinator → Prop
  | refl (c : Coordinator) : Recalls [] c c
  | step {ts us : List Recollection} {c c₁ c₂ : Coordinator} :
      Recalls ts c c₁ → Recall us c₁ c₂ → Recalls (ts ++ us) c c₂

namespace Recalls

theorem one {ts : List Recollection} {c c' : Coordinator} (h : Recall ts c c') : Recalls ts c c' :=
  .step (.refl c) h

theorem trans {ts us : List Recollection} {a b c : Coordinator} (h : Recalls ts a b)
    (h' : Recalls us b c) : Recalls (ts ++ us) a c := by
  induction h' with
  | refl => rwa [List.append_nil]
  | step _ last ih =>
    rw [← List.append_assoc]
    exact .step (ih h) last

end Recalls

/-! ## Footprints -/

/-- What one step of replay does to the records and the attempts. -/
inductive Footprint where
  | moved (key : ReservationKey) (state : ReservationState)
  | recall (t : Recollection)

/-- A graded relation that every step of replay respects. -/
class Playback (R : List Footprint → Coordinator → Coordinator → Prop) : Prop
    extends Op.Graded R where
  moved : ∀ {c : Coordinator} {key : ReservationKey} {r : ReservationRecord}
    (next : ReservationRecord), c.records[key]? = some r → next.key = r.key →
      next.terms = r.terms → next.authority = r.authority →
        R [.moved key next.state] c (c.moveRecord r next)
  put : ∀ {c : Coordinator} {key : ReservationKey} {r next : ReservationRecord},
    c.records[key]? = some r → next.key = r.key → next.terms = r.terms →
      next.authority = r.authority → next.state = r.state → R [] c (c.putRecord next)
  elsewhere : ∀ {c c' : Coordinator}, Elsewhere c c' → R [] c c'
  recollect : ∀ (c : Coordinator) (t : Recollection), R [.recall t] c (c.recollect t)

/-! ## Records of the journal -/

theorem within_elsewhere_replayCapacity (capacity : CapacityMutation) :
    Op.Within Elsewhere (replayCapacity capacity) := by
  unfold replayCapacity
  refine Op.within_bind (Op.within_each (fun resource => ?_) _) fun _ => ?_
  · refine Op.within_get_bind fun c => ?_
    refine Op.ensures_lift_bind (fun ⟨changed, ledger⟩ applied => ?_) fun _ _ => .refl c
    exact ⟨rfl, rfl, rfl, rfl, rfl, rfl, rfl, rfl, rfl, rfl, fun named => namedLedger_apply named applied⟩
  refine Op.within_bind (Op.within_each (fun name => ?_) _) fun _ => ?_
  · refine Op.within_get_bind fun c => ?_
    cases withdrawn : c.ledger.withdraw name capacity.snapshot.ingestedAt with
    | ok ledger =>
      exact ⟨rfl, rfl, rfl, rfl, rfl, rfl, rfl, rfl, rfl, rfl, fun named => namedLedger_withdraw named withdrawn⟩
    | error e => exact Op.within_refuseIf _ _ c
  exact Op.within_modify fun _ => ⟨rfl, rfl, rfl, rfl, rfl, rfl, rfl, rfl, rfl, rfl, id⟩

theorem within_elsewhere_replayPaths (snapshot : PathAuthoritySnapshot) :
    Op.Within Elsewhere (replayPaths snapshot) := by
  unfold replayPaths
  refine Op.within_bind (Op.within_each (fun path => ?_) _) fun _ => ?_
  · refine Op.within_bind Op.within_get fun _ => ?_
    refine Op.within_bind (Op.within_lift _) fun _ => ?_
    exact Op.within_modify fun _ => ⟨rfl, rfl, rfl, rfl, rfl, rfl, rfl, rfl, rfl, rfl, id⟩
  exact Op.within_modify fun _ => ⟨rfl, rfl, rfl, rfl, rfl, rfl, rfl, rfl, rfl, rfl, id⟩

theorem elsewhere_recallSeries (c : Coordinator) (series : ReservationSeries) :
    Elsewhere c (c.recallSeries series) := ⟨rfl, rfl, rfl, rfl, rfl, rfl, rfl, rfl, rfl, rfl, id⟩

theorem elsewhere_recallFence (c : Coordinator) (fence : FenceRecord) :
    Elsewhere c (c.recallFence fence) := ⟨rfl, rfl, rfl, rfl, rfl, rfl, rfl, rfl, rfl, rfl, id⟩

theorem elsewhere_recallClaimant (c : Coordinator) (registration : ClaimantMutation) :
    Elsewhere c (c.recallClaimant registration) := by
  unfold recallClaimant
  cases c.claimants[registration.claimant]? with
  | none => exact ⟨rfl, rfl, rfl, rfl, rfl, rfl, rfl, rfl, rfl, rfl, id⟩
  | some known =>
    by_cases newer : known < registration.generation
    · simp only [newer, decide_true, if_true]
      exact ⟨rfl, rfl, rfl, rfl, rfl, rfl, rfl, rfl, rfl, rfl, id⟩
    · simp only [newer, decide_false, Bool.false_eq_true, if_false]
      exact .refl c

/-- What a retained attempt of a mutation does. -/
def attemptFootprints (attempt : Option AttemptMutation) : List Footprint :=
  attempt.toList.map fun a => .recall (.attempt a)

/-- What a commit, an amendment or a series does, in the order of replay. -/
def reservationFootprints (m : ReservationMutation) : List Footprint :=
  (if m.supersedeRecord then
    [.moved ⟨m.record.predecessor, m.record.predecessorGeneration⟩ .superseded] else []) ++
  ((m.record :: m.members).map (fun r => .recall (.record r)) ++
  (m.companions.map (fun k => .moved ⟨k.id, k.generation⟩ k.toState) ++
    attemptFootprints m.attempt))

/-- What a record of the journal does. -/
def footprints : DurableRecord → List Footprint
  | .reservationCommit m | .reservationAmend m | .reservationSeries m => reservationFootprints m
  | .reservationState m => .moved ⟨m.id, m.generation⟩ m.toState :: attemptFootprints m.attempt
  | .attemptOutcome a => [.recall (.attempt a)]
  | .retire m => (m.ids.zip m.generations).map fun p => .recall (.retire ⟨p.1, p.2⟩)
  | _ => []

section Playback

variable {R : List Footprint → Coordinator → Coordinator → Prop} [Playback R]

theorem playback_recallAttempt (c : Coordinator) (attempt : Option AttemptMutation) :
    R (attemptFootprints attempt) c (c.recallAttempt attempt) := by
  cases attempt with
  | none => exact Op.Graded.refl c
  | some a => exact Playback.recollect c (.attempt a)

theorem tells_replaySupersession (mutation : ReservationMutation) :
    Op.Tells R (if mutation.supersedeRecord then
      [.moved ⟨mutation.record.predecessor, mutation.record.predecessorGeneration⟩ .superseded]
      else []) (replaySupersession mutation) := by
  intro c
  unfold replaySupersession
  cases mutation.supersedeRecord with
  | false => exact Op.Graded.refl c
  | true =>
    simp only [if_true]
    apply Op.ensures_get_bind
    split
    · trivial
    · rename_i r stored
      exact Op.ensures_set (Playback.moved (R := R) (r.withState .superseded
        mutation.record.committedAt (ascii "superseded by a later generation") r.lastProvenance)
          stored rfl rfl rfl)

theorem tells_replayCompanion (companion : StateMutation) :
    Op.Tells R [.moved ⟨companion.id, companion.generation⟩ companion.toState]
      (replayCompanion companion) := by
  intro c
  unfold replayCompanion
  apply Op.ensures_get_bind
  split
  · trivial
  · rename_i r stored
    exact Op.ensures_set (Playback.moved (R := R) (companion.applyTo r) stored rfl rfl rfl)

theorem tells_replayReservation (mutation : ReservationMutation) :
    Op.Tells R (reservationFootprints mutation) (replayReservation mutation) := by
  have companions := Op.Tells.each (tells_replayCompanion (R := R)) mutation.companions
  rw [← List.map_eq_flatMap] at companions
  unfold replayReservation reservationFootprints
  refine Op.Tells.bind (tells_replaySupersession mutation) fun _ => ?_
  refine Op.Tells.silent_bind (.modify fun _ => Playback.elsewhere
    ⟨rfl, rfl, rfl, rfl, rfl, rfl, rfl, rfl, rfl, rfl, id⟩) fun _ => ?_
  refine Op.Tells.bind (.modify (Op.graded_foldl (f := recallRecord)
    (fun c r => Playback.recollect c (.record r)) _)) fun _ => ?_
  refine Op.Tells.silent_bind (.modify (Op.graded_foldl_silent (f := recallSeries)
    (fun c series => Playback.elsewhere (elsewhere_recallSeries c series)) _)) fun _ => ?_
  refine Op.Tells.bind companions fun _ => ?_
  exact .modify fun c => playback_recallAttempt c mutation.attempt

theorem tells_replayState (mutation : StateMutation) :
    Op.Tells R (.moved ⟨mutation.id, mutation.generation⟩ mutation.toState ::
      attemptFootprints mutation.attempt) (replayState mutation) := by
  intro c
  unfold replayState
  apply Op.ensures_get_bind
  split
  · trivial
  · rename_i r stored
    have moves : ∀ next : ReservationRecord, next.state = mutation.toState → next.key = r.key →
        next.terms = r.terms → next.authority = r.authority →
        R (.moved ⟨mutation.id, mutation.generation⟩ mutation.toState ::
            attemptFootprints mutation.attempt) c
          (((((c.countState r.state mutation.toState).putRecord next).syncQueues
            next)).recallAttempt mutation.attempt) := by
      rintro next state named terms authority
      have moved := Playback.moved (R := R) next stored named terms authority
      unfold moveRecord at moved
      rw [state] at moved
      exact Op.Graded.trans moved (playback_recallAttempt _ mutation.attempt)
    refine Op.ensures_set (moves _ rfl ?_ ?_ ?_)
    · split <;> rfl
    · split <;> rfl
    · split <;> rfl

/-- **Replay** of one record does what the record says. -/
theorem tells_applyReplay : ∀ d : DurableRecord, Op.Tells R (footprints d) (applyReplay d)
  | .fabricBoot epoch => .of_within (fun _ _ => Playback.elsewhere) (Op.within_modify fun c => by
      split
      · exact ⟨rfl, rfl, rfl, rfl, rfl, rfl, rfl, rfl, rfl, rfl, id⟩
      · exact .refl c)
  | .capacitySnapshot capacity =>
      .of_within (fun _ _ => Playback.elsewhere) (within_elsewhere_replayCapacity capacity)
  | .pathSnapshot path =>
      .of_within (fun _ _ => Playback.elsewhere) (within_elsewhere_replayPaths path)
  | .policyRecord policy => .of_within (fun _ _ => Playback.elsewhere) (by
      refine Op.within_bind Op.within_get fun _ => ?_
      refine Op.within_bind (Op.within_lift _) fun _ => ?_
      exact Op.within_modify fun _ => ⟨rfl, rfl, rfl, rfl, rfl, rfl, rfl, rfl, rfl, rfl, id⟩)
  | .reservationCommit mutation => tells_replayReservation mutation
  | .reservationAmend mutation => tells_replayReservation mutation
  | .reservationSeries mutation => tells_replayReservation mutation
  | .reservationState mutation => tells_replayState mutation
  | .reservationApplicability mutation => by
      intro c
      change Op.Ensures (replayApplicability mutation) c _
      unfold replayApplicability
      apply Op.ensures_get_bind
      split
      · trivial
      · rename_i r stored
        exact Op.ensures_set (Playback.put (R := R) stored rfl rfl rfl rfl)
  | .attemptOutcome attempt => .modify fun c => Playback.recollect c (.attempt attempt)
  | .fence fence => .of_within (fun _ _ => Playback.elsewhere)
      (Op.within_modify fun c => elsewhere_recallFence c fence)
  | .claimantRegistration claimant => .of_within (fun _ _ => Playback.elsewhere)
      (Op.within_modify fun c => elsewhere_recallClaimant c claimant)
  | .overcommit overcommit => .of_within (fun _ _ => Playback.elsewhere)
      (Op.within_modify fun _ => ⟨rfl, rfl, rfl, rfl, rfl, rfl, rfl, rfl, rfl, rfl, id⟩)
  | .retire retire => .modify fun c => by
      have each := Op.graded_foldl (R := R) (f := replayRetire)
        (fun c key => Playback.recollect c (.retire key))
        ((retire.ids.zip retire.generations).map fun p => ⟨p.1, p.2⟩) c
      rwa [List.map_map] at each

end Playback

/-! ## Snapshots -/

/-- What a snapshot does. -/
def snapshotFootprints (s : SnapshotState) : List Footprint :=
  s.reservations.map (fun r => .recall (.record r)) ++
    (s.attempts.map (fun a => .recall (.attempt a)) ++
      s.retired.map fun r => .recall (.archived r))

section Playback

variable {R : List Footprint → Coordinator → Coordinator → Prop} [Playback R]

/-- The capacity loop of a snapshot files every resource under its name. -/
theorem playback_recallCapacity : ∀ {entries : List CapacityEntry} (acc : Coordinator × Timestamp),
    (∀ e ∈ entries, e.capacity.resource.empty = false) →
      R [] acc.1 (entries.foldl recallCapacity acc).1
  | [], acc, _ => Op.Graded.refl acc.1
  | e :: rest, acc, named => by
    have turn : Elsewhere acc.1 (recallCapacity acc e).1 := by
      have named := fun h : NamedLedger acc.1.ledger => h.insert e (named e List.mem_cons_self)
      unfold recallCapacity
      dsimp only
      split
      · exact ⟨rfl, rfl, rfl, rfl, rfl, rfl, rfl, rfl, rfl, rfl, named⟩
      · exact ⟨rfl, rfl, rfl, rfl, rfl, rfl, rfl, rfl, rfl, rfl, named⟩
    exact Op.Graded.trans (Playback.elsewhere turn) (playback_recallCapacity _ fun e' mem =>
      named e' (List.mem_cons_of_mem _ mem))

/-- A silent step, before the others. -/
theorem Playback.silent {fs : List Footprint} {a b c : Coordinator} (h : R [] a b) (h' : R fs b c) :
    R fs a c := Op.Graded.trans h h'

/-- **A snapshot** does what it holds. -/
theorem playback_applySnapshot {s : SnapshotState}
    (named : ∀ e ∈ s.capacity, e.capacity.resource.empty = false) (c : Coordinator) :
    R (snapshotFootprints s) c (c.applySnapshot s) := by
  unfold applySnapshot snapshotFootprints
  dsimp only
  have blank : Elsewhere c { c with ledger := ∅, paths := ∅, policies := ∅ } :=
    ⟨rfl, rfl, rfl, rfl, rfl, rfl, rfl, rfl, rfl, rfl, fun _ n entry found => absurd found (by simp)⟩
  refine Playback.silent (Playback.elsewhere blank) ?_
  generalize ({ c with ledger := ∅, paths := ∅, policies := ∅ } : Coordinator) = c₁
  refine Playback.silent (playback_recallCapacity (c₁, 0) named) ?_
  generalize (s.capacity.foldl recallCapacity (c₁, 0)).1 = c₁
  refine Playback.silent (Op.graded_foldl_silent (f := recallPath) (fun _ _ => Playback.elsewhere
    ⟨rfl, rfl, rfl, rfl, rfl, rfl, rfl, rfl, rfl, rfl, id⟩) s.paths c₁) ?_
  generalize s.paths.foldl recallPath c₁ = c₁
  refine Playback.silent (Op.graded_foldl_silent (f := recallPolicy) (fun _ _ =>
    Playback.elsewhere ⟨rfl, rfl, rfl, rfl, rfl, rfl, rfl, rfl, rfl, rfl, id⟩) s.policies c₁) ?_
  generalize s.policies.foldl recallPolicy c₁ = c₁
  have epoch : Elsewhere c₁ { c₁ with incarnation := { c₁.incarnation with epoch := s.epoch } } :=
    ⟨rfl, rfl, rfl, rfl, rfl, rfl, rfl, rfl, rfl, rfl, id⟩
  refine Playback.silent (Playback.elsewhere epoch) ?_
  generalize ({ c₁ with
    incarnation := { c₁.incarnation with epoch := s.epoch } } : Coordinator) = c₁
  refine Op.Graded.trans (Op.graded_foldl (f := recallRecord)
    (fun c r => Playback.recollect c (.record r)) s.reservations c₁) ?_
  generalize s.reservations.foldl recallRecord c₁ = c₁
  refine Playback.silent (Op.graded_foldl_silent (f := recallSeries)
    (fun c series => Playback.elsewhere (elsewhere_recallSeries c series)) s.series c₁) ?_
  generalize s.series.foldl recallSeries c₁ = c₁
  have edges : Elsewhere c₁ { c₁ with edges := s.edges } :=
    ⟨rfl, rfl, rfl, rfl, rfl, rfl, rfl, rfl, rfl, rfl, id⟩
  refine Playback.silent (Playback.elsewhere edges) ?_
  generalize ({ c₁ with edges := s.edges } : Coordinator) = c₁
  refine Op.Graded.trans (Op.graded_foldl (f := rememberAttempt)
    (fun c a => Playback.recollect c (.attempt a)) s.attempts c₁) ?_
  generalize s.attempts.foldl rememberAttempt c₁ = c₁
  refine Playback.silent (Op.graded_foldl_silent (f := recallFence)
    (fun c fence => Playback.elsewhere (elsewhere_recallFence c fence)) s.fences c₁) ?_
  generalize s.fences.foldl recallFence c₁ = c₁
  refine Playback.silent (Op.graded_foldl_silent (f := recallClaimant)
    (fun c claimant => Playback.elsewhere (elsewhere_recallClaimant c claimant))
    s.claimants c₁) ?_
  generalize s.claimants.foldl recallClaimant c₁ = c₁
  refine Playback.silent (Op.graded_foldl_silent (f := recallOvercommit) (fun _ _ =>
    Playback.elsewhere ⟨rfl, rfl, rfl, rfl, rfl, rfl, rfl, rfl, rfl, rfl, id⟩)
    s.overcommits c₁) ?_
  generalize s.overcommits.foldl recallOvercommit c₁ = c₁
  exact Op.graded_foldl (f := recallRetired) (fun c r => Playback.recollect c (.archived r))
    s.retired c₁

end Playback

/-! ## Recollections -/

/-- What a step of replay adds. -/
def Footprint.recollections : Footprint → List Recollection
  | .moved .. => []
  | .recall t => [t]

instance playbackRecalls : Playback fun fs => Recalls (fs.flatMap Footprint.recollections) where
  refl := .refl
  trans h h' := by
    rw [List.flatMap_append]
    exact h.trans h'
  moved _ stored named terms authority := .one (.moved _ _ _ _ stored named terms authority)
  put stored named terms authority _ := .one (.put _ _ _ _ stored named terms authority)
  elsewhere same := .one (.elsewhere _ _ same)
  recollect c t := .one (.recollect c t)

/-- What a retained attempt of a mutation adds. -/
def attemptRecollection (attempt : Option AttemptMutation) : List Recollection :=
  attempt.toList.map .attempt

/-- What a record of the journal adds. -/
def recollections : DurableRecord → List Recollection
  | .reservationCommit m | .reservationAmend m | .reservationSeries m =>
    (m.record :: m.members).map .record ++ attemptRecollection m.attempt
  | .reservationState m => attemptRecollection m.attempt
  | .attemptOutcome a => [.attempt a]
  | .retire m => ((m.ids.zip m.generations).map fun p => ⟨p.1, p.2⟩).map .retire
  | _ => []

/-- What a snapshot adds. -/
def snapshotRecollections (s : SnapshotState) : List Recollection :=
  s.reservations.map .record ++ (s.attempts.map .attempt ++ s.retired.map .archived)

theorem flatMap_recall {α : Type} (t : α → Recollection) (xs : List α) :
    (xs.map fun x => Footprint.recall (t x)).flatMap Footprint.recollections = xs.map t := by
  rw [List.flatMap_map, List.map_eq_flatMap]
  rfl

theorem flatMap_moved {α : Type} (key : α → ReservationKey) (state : α → ReservationState)
    (xs : List α) :
    (xs.map fun x => Footprint.moved (key x) (state x)).flatMap Footprint.recollections = [] := by
  rw [List.flatMap_map]
  exact List.flatMap_eq_nil_iff.mpr fun _ _ => rfl

theorem recollections_attemptFootprints (attempt : Option AttemptMutation) :
    (attemptFootprints attempt).flatMap Footprint.recollections = attemptRecollection attempt :=
  flatMap_recall .attempt attempt.toList

theorem recollections_reservationFootprints (m : ReservationMutation) :
    (reservationFootprints m).flatMap Footprint.recollections =
      (m.record :: m.members).map .record ++ attemptRecollection m.attempt := by
  unfold reservationFootprints
  rw [List.flatMap_append, List.flatMap_append, List.flatMap_append, flatMap_recall .record,
    flatMap_moved, recollections_attemptFootprints]
  cases m.supersedeRecord <;> rfl

/-- What a record of the journal does, as far as it adds something. -/
theorem recollections_footprints (d : DurableRecord) :
    (footprints d).flatMap Footprint.recollections = recollections d := by
  cases d with
  | reservationCommit m => exact recollections_reservationFootprints m
  | reservationAmend m => exact recollections_reservationFootprints m
  | reservationSeries m => exact recollections_reservationFootprints m
  | reservationState m => exact recollections_attemptFootprints m.attempt
  | retire m =>
    unfold footprints recollections
    dsimp only
    rw [flatMap_recall, List.map_map]
    rfl
  | _ => rfl

theorem recollections_snapshotFootprints (s : SnapshotState) :
    (snapshotFootprints s).flatMap Footprint.recollections = snapshotRecollections s := by
  unfold snapshotFootprints snapshotRecollections
  rw [List.flatMap_append, List.flatMap_append, flatMap_recall .record, flatMap_recall .attempt,
    flatMap_recall .archived]

/-! ## What is rebuilt -/

/-- What replay has rebuilt so far can be indexed. -/
structure Rebuilt (c : Coordinator) : Prop where
  keyed : ∀ (k : ReservationKey) (r : ReservationRecord), c.records[k]? = some r → r.key = k
  sound : ∀ (k : ReservationKey) (r : ReservationRecord), c.records[k]? = some r → r.Sound
  archive : ∀ (id : ReservationId) (r : ReservationRecord), c.retired[id]? = some r →
    r.id = id ∧ r.Sound
  ledger : NamedLedger c.ledger
  suspended : c.suspended = []

/-- A record that enters under its own key. -/
theorem Rebuilt.entering {c c' : Coordinator} (h : Rebuilt c) {r : ReservationRecord}
    (sound : r.Sound) (records : c'.records = c.records.insert r.key r)
    (retired : c'.retired = c.retired) (ledger : c'.ledger = c.ledger)
    (suspended : c'.suspended = c.suspended) : Rebuilt c' where
  keyed := by rw [records]; exact insert_keyed h.keyed rfl
  sound := by rw [records]; exact insert_keyed (P := fun _ r => r.Sound) h.sound sound
  archive := by rw [retired]; exact h.archive
  ledger := by rw [ledger]; exact h.ledger
  suspended := suspended.trans h.suspended

/-- What a recollection registers. -/
def Recollection.Sound : Recollection → Prop
  | .record r | .archived r => r.Sound
  | _ => True

theorem rebuilt_recollect {c : Coordinator} {t : Recollection} (own : t.Sound) (h : Rebuilt c) :
    Rebuilt (c.recollect t) := by
  cases t with
  | record r =>
    obtain ⟨a, e, q, shape⟩ := recallRecord_shape c r
    change Rebuilt (c.recallRecord r)
    rw [shape]
    exact h.entering own rfl rfl rfl rfl
  | archived r =>
    have entered : Rebuilt (c.registerRecord r) := h.entering own rfl rfl rfl rfl
    refine ⟨entered.keyed, entered.sound, ?_, entered.ledger, entered.suspended⟩
    intro id found there
    change (c.retired.insert r.id r)[id]? = some found at there
    rw [Map.get_insert] at there
    by_cases same : id = r.id
    · rw [if_pos same] at there
      obtain rfl := Option.some.inj there
      exact ⟨same.symm, own⟩
    · rw [if_neg same] at there
      exact h.archive id found there
  | attempt a => exact ⟨h.keyed, h.sound, h.archive, h.ledger, h.suspended⟩
  | retire key =>
    change Rebuilt (c.replayRetire key)
    unfold replayRetire
    cases stored : c.records[key]? with
    | none => exact h
    | some r =>
      have kept : ∀ (k : ReservationKey) (found : ReservationRecord),
          (c.records.erase key)[k]? = some found → c.records[k]? = some found := by
        intro k found there
        rw [Map.get_erase] at there
        split at there
        · cases there
        · exact there
      refine ⟨fun k found there => h.keyed k found (kept k found there),
        fun k found there => h.sound k found (kept k found there), ?_, h.ledger, h.suspended⟩
      intro id found there
      change (c.retired.insert key.id r)[id]? = some found at there
      rw [Map.get_insert] at there
      by_cases same : id = key.id
      · rw [if_pos same] at there
        obtain rfl := Option.some.inj there
        exact ⟨(congrArg ReservationKey.id (h.keyed key r stored)).trans same.symm,
          h.sound key r stored⟩
      · rw [if_neg same] at there
        exact h.archive id found there

theorem rebuilt_recall {ts : List Recollection} (own : ∀ t ∈ ts, t.Sound) {c c' : Coordinator}
    (step : Recall ts c c') (h : Rebuilt c) : Rebuilt c' := by
  cases step with
  | moved _ key r next stored named terms authority =>
    obtain ⟨a, e, q, l, n, shape⟩ := moveRecord_shape c r next
    rw [shape]
    exact h.entering (Sound.of_kept (h.sound key r stored) terms authority) rfl rfl rfl rfl
  | put _ key r next stored named terms authority =>
    exact h.entering (Sound.of_kept (h.sound key r stored) terms authority) rfl rfl rfl rfl
  | elsewhere _ _ same =>
    exact
      { keyed := by rw [same.records]; exact h.keyed
        sound := by rw [same.records]; exact h.sound
        archive := by rw [same.retired]; exact h.archive
        ledger := same.ledger h.ledger
        suspended := same.suspended.trans h.suspended }
  | recollect _ t => exact rebuilt_recollect (own t List.mem_cons_self) h

theorem rebuilt_recalls {ts : List Recollection} (own : ∀ t ∈ ts, t.Sound) {c c' : Coordinator}
    (steps : Recalls ts c c') (h : Rebuilt c) : Rebuilt c' := by
  induction steps with
  | refl => exact h
  | step _ last ih =>
    exact rebuilt_recall (fun t mem => own t (List.mem_append_right _ mem)) last
      (ih (fun t mem => own t (List.mem_append_left _ mem)) h)

/-- Replay leaves the handle and the configuration alone. -/
theorem recalls_steady {ts : List Recollection} {c c' : Coordinator} (steps : Recalls ts c c') :
    c'.store = c.store ∧ c'.config = c.config := by
  induction steps with
  | refl => exact ⟨rfl, rfl⟩
  | step _ last ih =>
    have one : ∀ {us c c'}, Recall us c c' → c'.store = c.store ∧ c'.config = c.config := by
      intro us c c' step
      cases step with
      | moved _ key r next stored named terms authority =>
        exact ⟨(steady_moveRecord c r next).store, (steady_moveRecord c r next).config⟩
      | put _ key r next stored named terms authority => exact ⟨rfl, rfl⟩
      | elsewhere _ _ same => exact ⟨same.store, same.config⟩
      | recollect _ t =>
        cases t with
        | record r => exact ⟨(steady_recallRecord c r).store, (steady_recallRecord c r).config⟩
        | archived r => exact ⟨rfl, rfl⟩
        | attempt a => exact ⟨rfl, rfl⟩
        | retire key => exact ⟨(steady_replayRetire c key).store, (steady_replayRetire c key).config⟩
    exact ⟨(one last).1.trans ih.1, (one last).2.trans ih.2⟩

/-- **The rebuilt index** holds entries of stored consuming reservations only. -/
theorem ensures_rebuildIndex {c : Coordinator} (h : Rebuilt c) :
    Op.Ensures rebuildIndex c fun res c' => res = .ok () ∧ ∃ y, c' = c.withIndex y ∧ y.Wf ∧
      ∀ e, y.Has e → e.kind = .reservation ∧ Backs c.records e := by
  unfold rebuildIndex
  apply Op.ensures_modify_bind
  apply Op.ensures_get_bind
  refine (Op.ensures_each_ok (I := fun d => ∃ y, d = c.withIndex y ∧ y.Wf ∧
    ∀ e, y.Has e → e.kind = .reservation ∧ Backs c.records e)
    ⟨{}, rfl, CapacityIndex.wf_empty, fun e no => absurd no (CapacityIndex.not_has_empty e)⟩ ?_).mono
    fun _ _ done => done
  rintro ⟨key, r⟩ mem _ ⟨y, rfl, wf, backed⟩
  have stored : c.records[key]? = some r := Map.mem_toList.mp mem
  obtain rfl := h.keyed key r stored
  apply Op.ensures_get_bind
  refine Op.ensures_ite (fun _ => ?_) fun _ => ⟨rfl, y, rfl, wf, backed⟩
  refine (ensures_syncIndex (c := c.withIndex y) wf (h.sound _ r stored)).mono ?_
  rintro _ _ ⟨rfl, z, rfl, wf', synced⟩
  refine ⟨rfl, z, rfl, wf', fun e has => ?_⟩
  unfold Synced at synced
  split at synced
  · exact backed e ((synced e).mp has)
  · rcases (synced e).mp has with ⟨indexable, entry⟩ | ⟨before, -⟩
    · obtain ⟨ref, -, rfl⟩ := ReservationRecord.mem_entries.mp entry
      exact ⟨rfl, r, stored, indexable_consumes indexable⟩
    · exact backed e before

/-- Rebuilding the queues touches nothing else. -/
theorem rebuildQueues_shape (c : Coordinator) : ∃ activationQueue expiryQueue recallQueue,
    c.rebuildQueues = { c with activationQueue, expiryQueue, recallQueue } := by
  have fold : ∀ (rs : List ReservationRecord) (d : Coordinator),
      (∃ a e q, d = { c with activationQueue := a, expiryQueue := e, recallQueue := q }) →
      ∃ a e q, rs.foldl syncQueues d =
        { c with activationQueue := a, expiryQueue := e, recallQueue := q } := by
    intro rs
    induction rs with
    | nil => exact fun _ h => h
    | cons r rest ih =>
      rintro d ⟨a, e, q, rfl⟩
      obtain ⟨a', e', q', queued⟩ := syncQueues_shape
        { c with activationQueue := a, expiryQueue := e, recallQueue := q } r
      exact ih _ ⟨a', e', q', queued⟩
  exact fold c.records.values _ ⟨[], [], [], rfl⟩

end Coordinator

/-- What a directory does to an empty store when it is read back. -/
def Contents.footprints (x : Contents) : List Coordinator.Footprint :=
  (x.base.map Coordinator.snapshotFootprints).getD [] ++ x.tail.flatMap Coordinator.footprints

/-- What a directory adds to an empty store when it is read back. -/
def Contents.recollections (x : Contents) : List Coordinator.Recollection :=
  (x.base.map Coordinator.snapshotRecollections).getD [] ++ x.tail.flatMap Coordinator.recollections

namespace Coordinator

theorem recollections_contents (x : Contents) :
    x.footprints.flatMap Footprint.recollections = x.recollections := by
  unfold Contents.footprints Contents.recollections
  rw [List.flatMap_append, List.flatMap_assoc]
  congr 1
  · cases x.base with
    | none => rfl
    | some s => exact recollections_snapshotFootprints s
  · exact List.flatMap_congr fun d _ => recollections_footprints d

/-- **Recovery** does what the directory says, to an empty coordinator. -/
theorem playback_recover {R : List Footprint → Coordinator → Coordinator → Prop} [Playback R]
    {config : Config} {disk : Disk} {faults : List Bool} {c : Coordinator} {x : Contents}
    (w : Written disk x) (sound : SoundContents x) (h : recover config disk faults = .ok c) :
    ∃ store c₁, store.disk = disk ∧ (store.InOrder ∧ store.Level) ∧
      R x.footprints { config, store } c₁ ∧
      rebuildIndex.exec c₁.rebuildQueues = (.ok (), c) := by
  obtain ⟨store, c₁, same, inOrder, replayed, indexed⟩ := recover_written w h
  refine ⟨store, c₁, same, inOrder, ?_, indexed⟩
  refine Op.Graded.trans (b := startFrom x.base { config, store }) ?_
    ((Op.Tells.each tells_applyReplay x.tail _).of_run replayed)
  unfold startFrom
  cases base : x.base with
  | none => exact Op.Graded.refl _
  | some s => exact playback_applySnapshot (sound.base s base).capacity _

/-- **Recovery** makes the recollections of the directory, from an empty coordinator. -/
theorem recalls_recover {config : Config} {disk : Disk} {faults : List Bool} {c : Coordinator}
    {x : Contents} (w : Written disk x) (sound : SoundContents x)
    (h : recover config disk faults = .ok c) :
    ∃ store c₁, store.disk = disk ∧ store.InOrder ∧
      Recalls x.recollections { config, store } c₁ ∧
      rebuildIndex.exec c₁.rebuildQueues = (.ok (), c) := by
  obtain ⟨store, c₁, same, ⟨inOrder, -⟩, played, indexed⟩ := playback_recover
    (R := fun fs => Recalls (fs.flatMap Footprint.recollections)) w sound h
  rw [recollections_contents] at played
  exact ⟨store, c₁, same, inOrder, played, indexed⟩

theorem SoundContents.recollections {x : Contents} (h : SoundContents x) :
    ∀ t ∈ x.recollections, t.Sound := by
  intro t mem
  rcases List.mem_append.mp mem with mem | mem
  · cases base : x.base with
    | none =>
      rw [base] at mem
      exact absurd mem List.not_mem_nil
    | some s =>
      rw [base] at mem
      have sound := h.base s base
      rcases List.mem_append.mp mem with mem | mem
      · obtain ⟨r, there, rfl⟩ := List.mem_map.mp mem
        exact sound.reservations r there
      rcases List.mem_append.mp mem with mem | mem
      · obtain ⟨a, -, rfl⟩ := List.mem_map.mp mem
        trivial
      · obtain ⟨r, there, rfl⟩ := List.mem_map.mp mem
        exact sound.retired r there
  · obtain ⟨d, there, mem⟩ := List.mem_flatMap.mp mem
    have registered := h.tail d there
    have reservation : ∀ m : ReservationMutation, (∀ r ∈ m.record :: m.members, r.Sound) →
        t ∈ (m.record :: m.members).map .record ++ attemptRecollection m.attempt → t.Sound := by
      intro m sound mem
      rcases List.mem_append.mp mem with mem | mem
      · obtain ⟨r, there, rfl⟩ := List.mem_map.mp mem
        exact sound r there
      · obtain ⟨a, -, rfl⟩ := List.mem_map.mp mem
        trivial
    cases d with
    | reservationCommit m => exact reservation m registered mem
    | reservationAmend m => exact reservation m registered mem
    | reservationSeries m => exact reservation m registered mem
    | reservationState m =>
      obtain ⟨a, -, rfl⟩ := List.mem_map.mp mem
      trivial
    | attemptOutcome a =>
      obtain rfl := List.mem_singleton.mp mem
      trivial
    | retire m =>
      obtain ⟨key, -, rfl⟩ := List.mem_map.mp mem
      trivial
    | _ => exact absurd mem List.not_mem_nil

/-- The recovered coordinator holds the directory, under the configuration it was given. -/
theorem recover_holds {config : Config} {disk : Disk} {faults : List Bool} {c : Coordinator}
    {x : Contents} (w : Written disk x) (sound : SoundContents x)
    (h : recover config disk faults = .ok c) : c.store.disk = disk ∧ c.config = config := by
  obtain ⟨store, c₁, same, -, steps, indexed⟩ := recalls_recover w sound h
  obtain ⟨held, configured⟩ := recalls_steady steps
  obtain ⟨y, rfl⟩ := (ensures_rebuildIndex_shape c₁.rebuildQueues).of_run indexed
  have queues := steady_rebuildQueues c₁
  refine ⟨?_, queues.config.trans configured⟩
  change c₁.rebuildQueues.store.disk = disk
  rw [queues.store, held]
  exact same

/-- **What consistent states have written** is recovered to an idle state. -/
theorem idle_recover {config : Config} {disk : Disk} {faults : List Bool} {c : Coordinator}
    {x : Contents} (w : Written disk x) (sound : SoundContents x)
    (h : recover config disk faults = .ok c) : Idle c := by
  obtain ⟨store, c₁, -, inOrder, steps, indexed⟩ := recalls_recover w sound h
  have blank : Rebuilt { config, store } :=
    ⟨fun _ _ no => absurd no (by simp), fun _ _ no => absurd no (by simp),
      fun _ _ no => absurd no (by simp), fun _ _ no => absurd no (by simp), rfl⟩
  have rebuilt := rebuilt_recalls sound.recollections steps blank
  have same := (recalls_steady steps).1
  obtain ⟨a, e, q, queued⟩ := rebuildQueues_shape c₁
  rw [queued] at indexed
  obtain ⟨-, y, rfl, wf, backed⟩ := (ensures_rebuildIndex
    (c := { c₁ with activationQueue := a, expiryQueue := e, recallQueue := q })
    ⟨rebuilt.keyed, rebuilt.sound, rebuilt.archive, rebuilt.ledger, rebuilt.suspended⟩).of_run indexed
  exact
    { consistent :=
        { store := same ▸ inOrder
          index := wf
          keyed := rebuilt.keyed
          sound := rebuilt.sound
          archive := rebuilt.archive
          backed := fun e has _ => (backed e has).2
          ledger := rebuilt.ledger }
      suspended := rebuilt.suspended }

end Coordinator

end Brf
