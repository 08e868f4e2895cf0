import Brf.Identities

/-!
# What archival keeps

Where a committed generation is found later: in the store, or, once it has been archived, in the
archive, which keeps one record for each identity.

* `Memory.Accounts m key`: the generation is in the store, or something is archived under its
  identity.
* `StoredIn as key`: the generation was stored at some point of the run `as`.
* `Answers c now key answer`: what `get_reservation` says about a generation.

Results: `accounts_stays` in the form `keeps_accounts` (no generation is lost altogether), and
`get_reservation_exact`: `get_reservation` answers with the generation it is asked for exactly if the
archive does not hold another one in its place.
-/

namespace Brf

open Brf.Lib
open Coordinator (Recollection Move Idle SoundContents)

/-- The recollection brings the generation, or an archived record of its identity. -/
def Coordinator.Recollection.Brings (key : ReservationKey) : Recollection → Prop
  | .record r => r.key = key
  | .archived r => r.id = key.id
  | _ => False

namespace Memory

/-- The generation is stored, or something is archived under its identity. -/
def Accounts (m : Memory) (key : ReservationKey) : Prop :=
  m.live key = true ∨ (m.archive key.id).isSome = true

variable {m : Memory} {key : ReservationKey}

theorem accounts_register (other : ReservationKey) (h : m.Accounts key ∨ other = key) :
    (m.register other).Accounts key := by
  rcases h with (live | archived) | rfl
  · exact .inl (by simp [register, live])
  · exact .inr archived
  · exact .inl (by simp [register])

theorem accounts_file (other : ReservationKey) (h : m.Accounts key ∨ other.id = key.id) :
    (m.file other).Accounts key := by
  unfold Accounts
  rw [archive_file]
  by_cases same : key.id = other.id
  · exact .inr (by rw [if_pos same]; rfl)
  · rw [if_neg same]
    exact h.resolve_right (Ne.symm same)

theorem Accounts.retire (h : m.Accounts key) (other : ReservationKey) :
    (m.retire other).Accounts key := by
  unfold Memory.retire
  split
  · by_cases same : key = other
    · rw [same]
      exact .inr (by change ((m.file other).archive other.id).isSome = true
                     rw [archive_file, if_pos rfl]; rfl)
    · rcases accounts_file other (.inl h) with live | archived
      · refine .inl ?_
        change (decide (key ≠ other) && m.live key) = true
        rw [decide_eq_true same]
        exact live
      · exact .inr archived
  · exact h

/-- **No generation is lost altogether.** -/
theorem accounts_recall {t : Recollection} (h : m.Accounts key ∨ t.Brings key) :
    (m.recollect t).Accounts key := by
  cases t with
  | record r => exact accounts_register r.key h
  | archived r => exact accounts_register r.key (.inl (accounts_file r.key h))
  | attempt a => exact h.resolve_right id
  | retire other => exact (h.resolve_right id).retire other

theorem Accounts.foldl (h : m.Accounts key) (ts : List Recollection) :
    (ts.foldl Memory.recollect m).Accounts key := by
  induction ts generalizing m with
  | nil => exact h
  | cons t ts ih => exact ih (accounts_recall (.inl h))

theorem accounts_foldl {ts : List Recollection} {t : Recollection} (mem : t ∈ ts)
    (brings : t.Brings key) : (ts.foldl Memory.recollect m).Accounts key := by
  induction ts generalizing m with
  | nil => exact absurd mem List.not_mem_nil
  | cons u ts ih =>
    rcases List.mem_cons.mp mem with rfl | mem
    · exact (accounts_recall (.inr brings)).foldl ts
    · exact ih mem

/-- What is stored was stored, or has been recalled. -/
theorem live_recall {t : Recollection} (h : (m.recollect t).live key = true) :
    m.live key = true ∨ t.Brings key := by
  have registered : ∀ {n : Memory} {other : ReservationKey}, (n.register other).live key = true →
      n.live key = true ∨ other = key := by
    intro n other live
    change (decide (key = other) || n.live key) = true at live
    rcases Bool.or_eq_true_iff.mp live with same | live
    · exact .inr (of_decide_eq_true same).symm
    · exact .inl live
  cases t with
  | record r => exact registered h
  | archived r => exact (registered h).imp (fun h => h) (congrArg ReservationKey.id)
  | attempt a => exact .inl h
  | retire other =>
    refine .inl ?_
    change (m.retire other).live key = true at h
    unfold Memory.retire at h
    split at h
    · exact (Bool.and_eq_true_iff.mp h).2
    · exact h

theorem live_foldl {ts : List Recollection} (h : (ts.foldl Memory.recollect m).live key = true) :
    m.live key = true ∨ ∃ t ∈ ts, t.Brings key := by
  induction ts generalizing m with
  | nil => exact .inl h
  | cons t ts ih =>
    rcases ih h with h | ⟨u, mem, brings⟩
    · rcases live_recall h with h | brings
      · exact .inl h
      · exact .inr ⟨t, List.mem_cons_self, brings⟩
    · exact .inr ⟨u, List.mem_cons_of_mem _ mem, brings⟩

end Memory

/-! ## Directories -/

/-- The directory brings the generation, or an archived record of its identity. -/
def Contents.Accounts (x : Contents) (key : ReservationKey) : Prop :=
  ∃ t ∈ x.recollections, t.Brings key

namespace Coordinator

theorem accounts_snapshotState {c : Coordinator} (idle : Idle c) {key : ReservationKey}
    (h : c.memory.Accounts key) : ({ base := some c.snapshotState } : Contents).Accounts key := by
  unfold Contents.Accounts Contents.recollections snapshotRecollections
  rw [Option.map_some, Option.getD_some]
  rcases h with live | found
  · obtain ⟨r, stored⟩ := Option.isSome_iff_exists.mp live
    refine ⟨.record r, List.mem_append_left _ (List.mem_append_left _ ?_), ?_⟩
    · exact List.mem_map_of_mem (Map.mem_values.mpr ⟨_, stored⟩)
    · exact idle.consistent.keyed _ r stored
  · obtain ⟨g, there⟩ := Option.isSome_iff_exists.mp found
    obtain ⟨r, archived, -⟩ := Option.map_eq_some_iff.mp there
    refine ⟨.archived r, List.mem_append_left _ (List.mem_append_right _
      (List.mem_append_right _ ?_)), ?_⟩
    · exact List.mem_map_of_mem (Map.mem_values.mpr ⟨_, archived⟩)
    · exact (idle.consistent.archive _ r archived).1

theorem accounts_leaves {c : Coordinator} (idle : Idle c) {x : Contents} {key : ReservationKey}
    (accounted : c.memory.Accounts key) (h : x.Accounts key) (m : Move) :
    (m.leaves c x).Accounts key := by
  by_cases snapshot : m = .snapshot
  · subst snapshot
    exact accounts_snapshotState idle accounted
  · have leaves : m.leaves c x = { x with tail := x.tail ++ m.logs c } := by
      cases m <;> first | rfl | exact absurd rfl snapshot
    rw [leaves]
    obtain ⟨t, mem, brings⟩ := h
    exact ⟨t, mem_recollections_append.mpr (.inl mem), brings⟩

theorem brings_logs {c c' : Coordinator} (idle : Idle c) {m : Move} (takes : m.Takes c c')
    {t : Recollection} {key : ReservationKey} (mem : t ∈ m.recollections c) (brings : t.Brings key)
    {x : Contents} : (m.leaves c x).Accounts key := by
  cases t with
  | record r => exact ⟨.record r, record_leaves idle takes mem, brings⟩
  | archived r => exact absurd mem (not_archived_move c m r)
  | attempt a => exact brings.elim
  | retire key => exact brings.elim

/-- Time reconciliation does not concern the memory. -/
theorem Runs.memory {c c' : Coordinator} (idle : Idle c) (h : Runs Prepares c c') :
    c'.memory = c.memory := by
  refine ((h idle).2.invariant_idle idle (I := fun d => d.memory = c.memory) ?_ rfl).2
  intro d d' m idle same own takes
  rw [memory_takes idle takes, ← same]
  cases m with
  | transition r target now reason context retained =>
    obtain ⟨rfl, -⟩ : retained = false ∧ _ := own
    rfl
  | quiet => rfl
  | releaseHold now id reason => rfl
  | claimant registration => rfl
  | _ => exact absurd own (by simp [Prepares, Clocked])

end Coordinator

/-! ## Runs -/

/-- Whatever is stored is in the directory. -/
def Filed (c : Coordinator) (x : Contents) : Prop :=
  ∀ key, c.memory.live key = true → x.Accounts key

theorem keeps_filed : System.Keeps (fun _ _ => True) Filed (fun _ _ => True) where
  move := by
    intro s a c c' x m _ _ idle _ filed takes key live
    rw [Coordinator.memory_takes idle takes] at live
    rcases Memory.live_foldl live with before | ⟨t, mem, brings⟩
    · exact Coordinator.accounts_leaves idle (.inl before) (filed key before) m
    · exact Coordinator.brings_logs idle takes mem brings
  recover := by
    intro config disk faults c x a _ written sound _ recovered key live
    rw [Coordinator.memory_recover written sound recovered] at live
    rcases Memory.live_foldl live with no | ⟨t, mem, brings⟩
    · exact absurd no (by simp [Memory.empty])
    · exact ⟨t, mem, brings⟩
  close := fun _ _ => trivial

/-- **A generation that has been stored stays accounted for**, in memory and in the directory. -/
theorem keeps_accounts (key : ReservationKey) : System.Keeps (fun _ _ => True)
    (fun c x => c.memory.Accounts key ∧ x.Accounts key) (fun _ x => x.Accounts key) where
  move := by
    rintro s a c c' x m - - idle - ⟨accounted, there⟩ takes
    rw [Coordinator.memory_takes idle takes]
    exact ⟨accounted.foldl _, Coordinator.accounts_leaves idle accounted there m⟩
  recover := by
    rintro config disk faults c x a - written sound ⟨t, mem, brings⟩ recovered
    rw [Coordinator.memory_recover written sound recovered]
    exact ⟨Memory.accounts_foldl mem brings, t, mem, brings⟩
  close := fun _ both => both.2

/-- The generation is in the store of a running coordinator. -/
def System.Stores (s : System) (key : ReservationKey) : Prop :=
  match s with
  | .up c => c.records[key]?.isSome = true
  | .down _ => False

instance : ∀ (s : System) (key : ReservationKey), Decidable (s.Stores key)
  | .up c, key => inferInstanceAs (Decidable (c.records[key]?.isSome = true))
  | .down _, _ => inferInstanceAs (Decidable False)

/-- The generation was stored at some point of the run. -/
def StoredIn (as : List Action) (key : ReservationKey) : Prop :=
  ∃ before behind, as = before ++ behind ∧ (System.run before).Stores key

theorem reachable_accounts {as : List Action} {key : ReservationKey} (stored : StoredIn as key)
    {c : Coordinator} (h : System.run as = .up c) : c.memory.Accounts key := by
  obtain ⟨before, behind, rfl, stored⟩ := stored
  have filed : System.Holds Filed (fun _ _ => True) (System.run before) :=
    System.holds_always keeps_filed (System.holds_initial trivial) before
  have start : System.Holds (fun c x => c.memory.Accounts key ∧ x.Accounts key)
      (fun _ x => x.Accounts key) (System.run before) := by
    cases at' : System.run before with
    | down disk =>
      rw [at'] at stored
      exact stored.elim
    | up c₀ =>
      rw [at'] at stored filed
      obtain ⟨idle, x, written, sound, filed⟩ := filed
      exact ⟨idle, x, written, sound, .inl stored, filed key stored⟩
  have held := System.holds_always (keeps_accounts key) start behind
  rw [← System.run_append, h] at held
  obtain ⟨-, -, -, -, accounted, -⟩ := held
  exact accounted

/-- **`get_reservation` is exact** unless the archive holds another generation in the place of the
one it is asked for: then, and only then, it answers with that other generation. -/
theorem get_reservation_exact {as : List Action} {c : Coordinator} (h : System.run as = .up c)
    {now : Timestamp} {id : ReservationId} {generation : ReservationGeneration}
    (asked : generation.val ≠ 0) (settles : ((Coordinator.reconcile now).exec c).1 = .ok ()) :
    let answer := ((Coordinator.getReservation now id generation).exec c).1
    ((StoredIn as ⟨id, generation⟩ → ∃ r, answer = .ok r) ∧
      ∀ r, answer = .ok r → r.key = ⟨id, generation⟩) ↔
    (c.records[(⟨id, generation⟩ : ReservationKey)]?.isSome = true ∨
      ∀ r, c.retired[id]? = some r → r.generation = generation) := by
  obtain ⟨idle, -⟩ := System.reachable_idle h
  obtain ⟨c₁, settled⟩ : ∃ c₁, (Coordinator.reconcile now).exec c = (.ok (), c₁) :=
    ⟨_, Prod.ext settles rfl⟩
  have runs := (Coordinator.within_reconcile (P := Coordinator.Prepares) (fun m clocked => by
    cases m <;> first | exact clocked | exact absurd clocked (by simp [Coordinator.Clocked])) now
      c).of_run settled
  have memory := runs.memory idle
  have idle₁ := (runs idle).1
  have retired := (runs.framed idle).retired
  have answer : ((Coordinator.getReservation now id generation).exec c).1 =
      ((c₁.findRecord id generation).or c₁.retired[id]?).elim
        (.error (makeError .notFound "reservation is not known to this coordinator")) .ok := by
    unfold Coordinator.getReservation
    rw [Op.exec_bind_of_ok settled, Op.exec_get_bind, if_neg asked]
    dsimp only
    cases (c₁.findRecord id generation).or c₁.retired[id]? <;> rfl
  dsimp only
  rw [answer]
  have live : c₁.records[(⟨id, generation⟩ : ReservationKey)]?.isSome =
      c.records[(⟨id, generation⟩ : ReservationKey)]?.isSome :=
    congrFun (congrArg Memory.live memory) ⟨id, generation⟩
  unfold Coordinator.findRecord
  cases stored : c₁.records[(⟨id, generation⟩ : ReservationKey)]? with
  | some r =>
    rw [stored] at live
    refine ⟨fun _ => .inl live.symm, fun _ => ⟨fun _ => ⟨r, rfl⟩, ?_⟩⟩
    rintro _ ⟨⟩
    exact idle₁.consistent.keyed _ r stored
  | none =>
    rw [stored] at live
    rw [Option.none_or, retired, ← live]
    cases archived : c.retired[id]? with
    | none =>
      refine ⟨fun _ => .inr fun _ no => absurd no (by simp), fun _ => ⟨fun was => ?_, ?_⟩⟩
      · rcases reachable_accounts was h with stored' | found
        · change c.records[(⟨id, generation⟩ : ReservationKey)]?.isSome = true at stored'
          rw [← live] at stored'
          exact absurd stored' (by decide)
        · change (c.retired[id]?.map ReservationRecord.generation).isSome = true at found
          rw [archived] at found
          exact absurd found (by decide)
      · rintro r ⟨⟩
    | some r =>
      have named := (idle.consistent.archive id r archived).1
      constructor
      · rintro ⟨-, exact⟩
        refine .inr ?_
        rintro _ ⟨⟩
        exact congrArg ReservationKey.generation (exact r rfl)
      · rintro (no | same)
        · exact absurd no (by decide)
        · refine ⟨fun _ => ⟨r, rfl⟩, ?_⟩
          rintro _ ⟨⟩
          unfold ReservationRecord.key
          rw [named, same r rfl]

/-- A stored generation is found. -/
theorem get_reservation_exact_stored :
    let c := (System.run [System.Sample.opened 0, System.Sample.ingested,
      System.Sample.created 1 3 100 60 50]).coordinator
    ∀ r, ((Coordinator.getReservation 4 50 1).exec c).1 = .ok r → r.key = ⟨50, 1⟩ :=
  ((get_reservation_exact (System.eq_up (by decide +kernel)) (by decide) (by decide +kernel)).mpr
    (.inl (by decide +kernel))).2

/-- Two generations of one reservation, both archived: the later one takes the place of the
earlier. -/
def System.Sample.archivedTwice : List Action :=
  [opened 0, ingested, created 1 3 100 60 50, amended 1 4 101 50 1 40, released 1 5 102 50 2,
    reconciled 1 6]

/-- The first generation was committed, and its history is lost. -/
theorem archived_generation_lost :
    ¬ ∀ (as : List Action) (c : Coordinator), System.run as = .up c →
      ∀ (now : Timestamp) (id : ReservationId) (generation : ReservationGeneration),
        generation.val ≠ 0 → StoredIn as ⟨id, generation⟩ →
          ∃ r, ((Coordinator.getReservation now id generation).exec c).1 = .ok r ∧
            r.key = ⟨id, generation⟩ := by
  intro claim
  have up := System.eq_up (s := System.run System.Sample.archivedTwice) (by decide +kernel)
  obtain ⟨r, answer, own⟩ := claim System.Sample.archivedTwice _ up 7 50 1 (by decide)
    ⟨System.Sample.archivedTwice.take 3, System.Sample.archivedTwice.drop 3, rfl, by decide +kernel⟩
  have other : ((Coordinator.getReservation 7 50 1).exec
      (System.run System.Sample.archivedTwice).coordinator).1.toOption.map ReservationRecord.key =
        some ⟨50, 2⟩ := by decide +kernel
  rw [answer] at other
  have two : r.key = ⟨50, 2⟩ := Option.some.inj other
  rw [own] at two
  exact absurd two (by decide)

end Brf
