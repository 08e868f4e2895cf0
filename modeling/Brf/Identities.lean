import Brf.Reachable

/-!
# Identities are never forgotten

An identity that has been registered stays known: through releases, retirement, compaction and
restarts, some generation of it can be found in the store or in the archive.

* `Memory.Mentions m id`: the identity occurs in the memory at all. `Memory.Knows m id`: it has a
  current generation, and one that can be found.
* `Action.Creates`: a create request with given attempt, terms and requested identity.
* `Establishes s s' id`: the identity is new in `s'`.

Results: `known_stays`, and `no_double_commit`: however often the same create is submitted, and
whatever happens in between, it establishes an identity at most once.
-/

namespace Brf

open Brf.Lib
open Coordinator (CreatePlan Recollection Move Idle SoundContents)

/-- The recollection registers a generation of the identity. -/
def Coordinator.Recollection.Names (id : ReservationId) : Recollection → Prop
  | .record r | .archived r => r.id = id
  | _ => False

namespace Memory

/-- The identity occurs in the memory. -/
def Mentions (m : Memory) (id : ReservationId) : Prop :=
  (m.current id).isSome = true ∨ (∃ g, m.live ⟨id, g⟩ = true) ∨ (m.archive id).isSome = true

/-- The identity has a current generation, and a generation that can be found. -/
def Knows (m : Memory) (id : ReservationId) : Prop :=
  (m.current id).isSome = true ∧ ((∃ g, m.live ⟨id, g⟩ = true) ∨ (m.archive id).isSome = true)

variable {m : Memory} {id : ReservationId}

theorem Knows.mentions (h : m.Knows id) : m.Mentions id := .inl h.1

/-! ## One recollection -/

theorem knows_register (m : Memory) (key : ReservationKey) : (m.register key).Knows key.id := by
  refine ⟨?_, .inl ⟨key.generation, by simp [register]⟩⟩
  change (if key.id = key.id ∧ _ then some key.generation else m.current key.id).isSome = true
  split
  · rfl
  · rename_i older
    cases known : m.current key.id with
    | none => exact absurd ⟨rfl, fun g mem => by simp [known] at mem⟩ older
    | some g => rfl

theorem Knows.register (h : m.Knows id) (key : ReservationKey) : (m.register key).Knows id := by
  by_cases same : id = key.id
  · rw [same]
    exact knows_register m key
  · refine ⟨?_, h.2.imp (fun ⟨g, live⟩ => ⟨g, by simp [Memory.register, live]⟩) fun h => h⟩
    change (if id = key.id ∧ _ then some key.generation else m.current id).isSome = true
    rw [if_neg fun both => same both.1]
    exact h.1

theorem archive_file (m : Memory) (key : ReservationKey) (id : ReservationId) :
    (m.file key).archive id = if id = key.id then some key.generation else m.archive id := by
  change Function.update m.archive key.id (some key.generation) id = _
  rw [Function.update_apply]

theorem Knows.file (h : m.Knows id) (key : ReservationKey) : (m.file key).Knows id := by
  refine ⟨h.1, h.2.imp (fun h => h) fun found => ?_⟩
  rw [archive_file]
  split
  · rfl
  · exact found

theorem Knows.retire (h : m.Knows id) (key : ReservationKey) : (m.retire key).Knows id := by
  unfold Memory.retire
  split
  · refine ⟨h.1, ?_⟩
    change (∃ g, (decide ((⟨id, g⟩ : ReservationKey) ≠ key) && m.live ⟨id, g⟩) = true) ∨
      ((m.file key).archive id).isSome = true
    rw [archive_file]
    by_cases same : id = key.id
    · exact .inr (by rw [if_pos same]; rfl)
    · rw [if_neg same]
      refine h.2.imp (fun ⟨g, live⟩ => ⟨g, ?_⟩) fun h => h
      have other : (⟨id, g⟩ : ReservationKey) ≠ key := fun eq => same (congrArg ReservationKey.id eq)
      simp [other, live]
  · exact h

/-- **What is known stays known.** -/
theorem Knows.recollect (h : m.Knows id) : ∀ t : Recollection, (m.recollect t).Knows id
  | .record r => h.register r.key
  | .archived r => (h.file r.key).register r.key
  | .attempt _ => h
  | .retire key => h.retire key

theorem Knows.foldl (h : m.Knows id) (ts : List Recollection) : (ts.foldl Memory.recollect m).Knows id := by
  induction ts generalizing m with
  | nil => exact h
  | cons t ts ih => exact ih (h.recollect t)

theorem knows_recall {t : Recollection} (names : t.Names id) : (m.recollect t).Knows id := by
  cases t with
  | record r =>
    obtain rfl := names
    exact knows_register m r.key
  | archived r =>
    obtain rfl := names
    exact knows_register (m.file r.key) r.key
  | attempt a => exact names.elim
  | retire key => exact names.elim

/-- What is recalled is known. -/
theorem knows_foldl {ts : List Recollection} {t : Recollection} (mem : t ∈ ts) (names : t.Names id) :
    (ts.foldl Memory.recollect m).Knows id := by
  induction ts generalizing m with
  | nil => exact absurd mem List.not_mem_nil
  | cons u ts ih =>
    rcases List.mem_cons.mp mem with rfl | mem
    · exact (knows_recall names).foldl ts
    · exact ih mem

theorem mentions_register {key : ReservationKey} (h : (m.register key).Mentions id) :
    m.Mentions id ∨ key.id = id := by
  by_cases same : key.id = id
  · exact .inr same
  · refine .inl (h.imp ?_ (Or.imp ?_ fun h => h))
    · intro known
      change (if id = key.id ∧ _ then some key.generation else m.current id).isSome = true at known
      rwa [if_neg fun both => same both.1.symm] at known
    · rintro ⟨g, live⟩
      refine ⟨g, ?_⟩
      change (decide ((⟨id, g⟩ : ReservationKey) = key) || m.live ⟨id, g⟩) = true at live
      have other : (⟨id, g⟩ : ReservationKey) ≠ key := fun eq =>
        same (congrArg ReservationKey.id eq).symm
      simpa [other] using live

theorem mentions_file {key : ReservationKey} (h : (m.file key).Mentions id) :
    m.Mentions id ∨ key.id = id := by
  by_cases same : key.id = id
  · exact .inr same
  · refine .inl (h.imp (fun h => h) (Or.imp (fun h => h) fun found => ?_))
    rw [archive_file, if_neg (Ne.symm same)] at found
    exact found

theorem mentions_retire {key : ReservationKey} (h : (m.retire key).Mentions id) : m.Mentions id := by
  unfold Memory.retire at h
  split at h
  · rename_i live
    rcases h with known | ⟨g, there⟩ | found
    · exact .inl known
    · change (decide ((⟨id, g⟩ : ReservationKey) ≠ key) && m.live ⟨id, g⟩) = true at there
      exact .inr (.inl ⟨g, (Bool.and_eq_true_iff.mp there).2⟩)
    · change ((m.file key).archive id).isSome = true at found
      rw [archive_file] at found
      split at found
      · rename_i same
        refine .inr (.inl ⟨key.generation, ?_⟩)
        rw [same]
        exact live
      · exact .inr (.inr found)
  · exact h

theorem mentions_recall {t : Recollection} (h : (m.recollect t).Mentions id) :
    m.Mentions id ∨ t.Names id := by
  cases t with
  | record r => exact mentions_register h
  | archived r =>
    rcases mentions_register h with h | h
    · exact mentions_file h
    · exact .inr h
  | attempt a => exact .inl h
  | retire key => exact .inl (mentions_retire h)

/-- What occurs in the memory was there, or has been recalled. -/
theorem mentions_foldl {ts : List Recollection} (h : (ts.foldl Memory.recollect m).Mentions id) :
    m.Mentions id ∨ ∃ t ∈ ts, t.Names id := by
  induction ts generalizing m with
  | nil => exact .inl h
  | cons t ts ih =>
    rcases ih h with h | ⟨u, mem, names⟩
    · rcases mentions_recall h with h | names
      · exact .inl h
      · exact .inr ⟨t, List.mem_cons_self, names⟩
    · exact .inr ⟨u, List.mem_cons_of_mem _ mem, names⟩

theorem not_mentions_empty (bound : Nat) : ¬ (empty bound).Mentions id := by
  rintro (known | ⟨g, live⟩ | found)
  · exact absurd known (by simp [empty])
  · exact absurd live (by simp [empty])
  · exact absurd found (by simp [empty])

end Memory

/-! ## Directories -/

/-- The directory registers a generation of the identity. -/
def Contents.Knows (x : Contents) (id : ReservationId) : Prop := ∃ t ∈ x.recollections, t.Names id

namespace Coordinator

theorem mem_recollections_append {x : Contents} {ds : List DurableRecord} {t : Recollection} :
    t ∈ ({ x with tail := x.tail ++ ds } : Contents).recollections ↔
      t ∈ x.recollections ∨ t ∈ ds.flatMap recollections := by
  unfold Contents.recollections
  dsimp only
  rw [List.flatMap_append, ← List.append_assoc, List.mem_append]

/-- The snapshot of a coordinator registers what its memory knows. -/
theorem knows_snapshotState {c : Coordinator} (idle : Idle c) {id : ReservationId}
    (h : c.memory.Knows id) : ({ base := some c.snapshotState } : Contents).Knows id := by
  unfold Contents.Knows Contents.recollections snapshotRecollections
  rw [Option.map_some, Option.getD_some]
  rcases h.2 with ⟨g, live⟩ | found
  · obtain ⟨r, stored⟩ := Option.isSome_iff_exists.mp live
    refine ⟨.record r, List.mem_append_left _ (List.mem_append_left _ ?_), ?_⟩
    · exact List.mem_map_of_mem (Map.mem_values.mpr ⟨_, stored⟩)
    · exact congrArg ReservationKey.id (idle.consistent.keyed _ r stored)
  · obtain ⟨g, there⟩ := Option.isSome_iff_exists.mp found
    obtain ⟨r, archived, -⟩ := Option.map_eq_some_iff.mp there
    refine ⟨.archived r, List.mem_append_left _ (List.mem_append_right _
      (List.mem_append_right _ ?_)), ?_⟩
    · exact List.mem_map_of_mem (Map.mem_values.mpr ⟨_, archived⟩)
    · exact (idle.consistent.archive id r archived).1

/-- What is known to a coordinator and its directory is known to the directory it leaves. -/
theorem knows_leaves {c : Coordinator} (idle : Idle c) {x : Contents} {id : ReservationId}
    (known : c.memory.Knows id) (h : x.Knows id) (m : Move) : (m.leaves c x).Knows id := by
  by_cases snapshot : m = .snapshot
  · subst snapshot
    exact knows_snapshotState idle known
  · have leaves : m.leaves c x = { x with tail := x.tail ++ m.logs c } := by
      cases m <;> first | rfl | exact absurd rfl snapshot
    rw [leaves]
    obtain ⟨t, mem, names⟩ := h
    exact ⟨t, mem_recollections_append.mpr (.inl mem), names⟩

/-- What a move registers, it has logged. -/
theorem record_leaves {c c' : Coordinator} (idle : Idle c) {m : Move} (takes : m.Takes c c')
    {r : ReservationRecord} (mem : .record r ∈ m.recollections c) {x : Contents} :
    .record r ∈ (m.leaves c x).recollections := by
  have logged : ∀ {d : DurableRecord}, Recollection.record r ∈ recollections d →
      m.leaves c x = { x with tail := x.tail ++ [d] } →
      .record r ∈ (m.leaves c x).recollections := by
    intro d there leaves
    rw [leaves]
    exact mem_recollections_append.mpr (.inr (by simpa using there))
  cases m with
  | create p victims =>
    refine logged (d := .reservationCommit (c.createMutation p victims)) ?_ rfl
    refine List.mem_append_left _ ((List.mem_append.mp mem).resolve_right fun no => ?_)
    exact absurd (List.mem_singleton.mp no) (by simp)
  | amend p superseded successors mutation =>
    obtain ⟨made, -⟩ := takes_amend idle takes
    refine logged (d := .reservationAmend mutation) (List.mem_append_left _ ?_) rfl
    have successor := (List.mem_append.mp mem).resolve_right fun no =>
      absurd (List.mem_singleton.mp no) (by simp)
    obtain ⟨r', there, same⟩ := List.mem_map.mp successor
    obtain rfl := Recollection.record.inj same
    exact List.mem_map_of_mem ((amendMutation_successors made).1.mem_iff.mpr there)
  | revalidate r' binding now context =>
    refine logged (d := .reservationAmend (c.revalidationMutation r'
      (c.revalidatedSuccessor r' binding now context) now)) (List.mem_append_left _ ?_) rfl
    rw [List.mem_singleton.mp mem]
    exact List.mem_cons_self
  | retire now => exact absurd (List.mem_map.mp mem) (by simp)
  | transition r' target now reason context retained =>
    cases retained with
    | false => exact absurd mem List.not_mem_nil
    | true => exact absurd (List.mem_singleton.mp mem) (by simp)
  | refusal attempt => exact absurd (List.mem_singleton.mp mem) (by simp)
  | pendRecall r' now reason context effect grace => exact absurd (List.mem_singleton.mp mem) (by simp)
  | _ => exact absurd mem List.not_mem_nil

/-- No move reads an archived record back. -/
theorem not_archived_move (c : Coordinator) (m : Move) (r : ReservationRecord) :
    .archived r ∉ m.recollections c := by
  intro mem
  cases m with
  | transition r' target now reason context retained =>
    cases retained with
    | false => exact absurd mem List.not_mem_nil
    | true => exact absurd (List.mem_singleton.mp mem) (by simp)
  | create p victims => exact absurd mem (by simp [Move.recollections])
  | amend p superseded successors mutation => exact absurd mem (by simp [Move.recollections])
  | retire now => exact absurd (List.mem_map.mp mem) (by simp)
  | refusal attempt => exact absurd (List.mem_singleton.mp mem) (by simp)
  | pendRecall r' now reason context effect grace => exact absurd (List.mem_singleton.mp mem) (by simp)
  | revalidate r' binding now context => exact absurd (List.mem_singleton.mp mem) (by simp)
  | _ => exact absurd mem List.not_mem_nil

/-- The identities a move registers are in the directory it leaves. -/
theorem names_logs {c c' : Coordinator} (idle : Idle c) {m : Move} (takes : m.Takes c c')
    {t : Recollection} {id : ReservationId} (mem : t ∈ m.recollections c) (names : t.Names id)
    {x : Contents} : (m.leaves c x).Knows id := by
  cases t with
  | record r => exact ⟨.record r, record_leaves idle takes mem, names⟩
  | archived r => exact absurd mem (not_archived_move c m r)
  | attempt a => exact names.elim
  | retire key => exact names.elim

end Coordinator

/-! ## Runs -/

/-- Whatever occurs in memory can be found there, and is in the directory. -/
def Complete (c : Coordinator) (x : Contents) : Prop :=
  ∀ id, c.memory.Mentions id → c.memory.Knows id ∧ x.Knows id

theorem keeps_complete : System.Keeps (fun _ _ => True) Complete (fun _ _ => True) where
  move := by
    intro s a c c' x m _ _ idle _ complete takes id mentioned
    rw [Coordinator.memory_takes idle takes] at mentioned ⊢
    rcases Memory.mentions_foldl mentioned with before | ⟨t, mem, names⟩
    · obtain ⟨known, there⟩ := complete id before
      exact ⟨known.foldl _, Coordinator.knows_leaves idle known there m⟩
    · exact ⟨Memory.knows_foldl mem names, Coordinator.names_logs idle takes mem names⟩
  recover := by
    intro config disk faults c x a _ written sound _ recovered id mentioned
    rw [Coordinator.memory_recover written sound recovered] at mentioned ⊢
    rcases Memory.mentions_foldl mentioned with no | ⟨t, mem, names⟩
    · exact absurd no (Memory.not_mentions_empty _)
    · exact ⟨Memory.knows_foldl mem names, t, mem, names⟩
  close := fun _ _ => trivial

/-- **A known identity stays known**, in memory and in the directory. -/
theorem keeps_known (id : ReservationId) : System.Keeps (fun _ _ => True)
    (fun c x => c.memory.Knows id ∧ x.Knows id) (fun _ x => x.Knows id) where
  move := by
    rintro s a c c' x m - - idle - ⟨known, there⟩ takes
    rw [Coordinator.memory_takes idle takes]
    exact ⟨known.foldl _, Coordinator.knows_leaves idle known there m⟩
  recover := by
    rintro config disk faults c x a - written sound ⟨t, mem, names⟩ recovered
    rw [Coordinator.memory_recover written sound recovered]
    exact ⟨Memory.knows_foldl mem names, t, mem, names⟩
  close := fun _ both => both.2

/-! ## Creates -/

/-- The identities a create registers: those of the members, if it asks for a series. -/
def establishedBy (attempt : AttemptId) (terms : ReservationTerms) (requestedId : ReservationId) :
    List ReservationId :=
  if terms.recurrence.enabled then
    Coordinator.memberIds (deriveSeriesId terms.claimant attempt 2) terms.recurrence.count.val
  else [Request.createdId { attempt } terms requestedId]

/-- A create request, at any time, from any publisher and with any holds. -/
def Action.Creates (attempt : AttemptId) (terms : ReservationTerms) (requestedId : ReservationId)
    (a : Action) : Prop :=
  ∃ now context dryRun holds, context.attempt = attempt ∧
    a.event = .request (.create now context terms requestedId dryRun holds)

/-- The identity is new. -/
def Establishes (s s' : System) (id : ReservationId) : Prop :=
  match s, s' with
  | .up c, .up c' =>
    c.currentGeneration[id]?.isSome = false ∧ c'.currentGeneration[id]?.isSome = true
  | _, _ => False

instance (s s' : System) (id : ReservationId) : Decidable (Establishes s s' id) := by
  unfold Establishes
  split <;> infer_instance

theorem establishes_up {s s' : System} {id : ReservationId} (h : Establishes s s' id) :
    ∃ c c', s = .up c ∧ s' = .up c' ∧ c.currentGeneration[id]?.isSome = false ∧
      c'.currentGeneration[id]?.isSome = true := by
  unfold Establishes at h
  split at h
  · exact ⟨_, _, rfl, rfl, h⟩
  · exact h.elim

section

variable {attempt : AttemptId} {terms : ReservationTerms} {requestedId : ReservationId} {a : Action}

/-- What the commit of such a create registers. -/
theorem createRecords_ids (creates : a.Creates attempt terms requestedId) {c : Coordinator}
    {p : CreatePlan} {victims : List IndexEntry} (own : a.Makes (.create p victims))
    (admitted : p.Admitted c) :
    (c.createRecords p).map ReservationRecord.id = establishedBy attempt terms requestedId ∧
      establishedBy attempt terms requestedId ≠ [] ∧
      ∀ id ∈ establishedBy attempt terms requestedId, c.currentGeneration[id]? = none := by
  obtain ⟨now, context, dryRun, holds, rfl, event⟩ := creates
  unfold Action.Makes at own
  rw [event] at own
  obtain ⟨-, -, -, context', terms', -, id', -⟩ := own.resolve_left (by simp [Coordinator.Housekeeping,
    Coordinator.Clocked])
  obtain ⟨length, pos⟩ := expandSeries_length admitted.intervals
  have series := admitted.series
  have fresh := admitted.fresh
  have members := admitted.freshMembers
  rw [context', terms'] at series
  rw [terms'] at members length
  unfold Coordinator.createRecords establishedBy
  rw [terms']
  cases enabled : terms.recurrence.enabled with
  | false =>
    refine ⟨congrArg (fun id => [id]) id', by simp, fun id mem => ?_⟩
    rw [List.mem_singleton.mp mem, ← fresh, id']
    rfl
  | true =>
    rw [enabled] at series length
    have count : p.intervals.length = terms.recurrence.count.val := length
    have named : p.seriesId = deriveSeriesId terms.claimant context.attempt 2 := series
    rw [named] at members
    refine ⟨?_, ?_, members enabled⟩
    · rw [if_pos rfl, if_pos rfl, named]
      unfold Coordinator.memberIds
      rw [← count]
      apply List.ext_getElem
      · simp
      · intro i _ _
        simp [Coordinator.makeRecord]
    · rw [if_pos rfl]
      unfold Coordinator.memberIds
      rw [← count]
      simp only [ne_eq, List.map_eq_nil_iff, List.range_eq_nil]
      omega

/-- A move of such a request registers under a stored identity, unless it is the commit. -/
theorem names_creates (creates : a.Creates attempt terms requestedId) {c c' : Coordinator}
    {m : Move} (own : a.Makes m) (takes : m.Takes c c') {t : Recollection} {id : ReservationId}
    (mem : t ∈ m.recollections c) (names : t.Names id) :
    (∃ p victims, m = .create p victims) ∨ c.memory.Mentions id := by
  obtain ⟨now, context, dryRun, holds, rfl, event⟩ := creates
  unfold Action.Makes at own
  rw [event] at own
  have nothing : ∀ {u : List AttemptRecord}, t ∉ u.map Recollection.attempt := by
    rintro u no
    obtain ⟨b, -, rfl⟩ := List.mem_map.mp no
    exact names.elim
  cases m with
  | create p victims => exact .inl ⟨p, victims, rfl⟩
  | revalidate r binding now context =>
    obtain rfl := List.mem_singleton.mp mem
    obtain ⟨-, stored, -⟩ := takes
    refine .inr (.inr (.inl ⟨r.generation, ?_⟩))
    have same : r.id = id := names
    change c.records[(⟨id, r.generation⟩ : ReservationKey)]?.isSome = true
    rw [← same]
    exact Option.isSome_iff_exists.mpr ⟨r, stored⟩
  | retire now =>
    obtain ⟨key, -, rfl⟩ := List.mem_map.mp mem
    exact names.elim
  | refusal attempt => exact absurd mem (nothing (u := [_]))
  | pendRecall r now reason context effect grace => exact absurd mem (nothing (u := [_]))
  | transition r target now reason context retained =>
    cases retained with
    | false => exact absurd mem List.not_mem_nil
    | true => exact absurd mem (nothing (u := [_]))
  | amend p superseded successors mutation =>
    exact absurd own (by simp [Request.Makes, Request.Carries, Coordinator.Housekeeping,
      Coordinator.Clocked])
  | _ => exact absurd mem List.not_mem_nil

/-- The request has not committed: no identity is new. -/
def Unchanged (c d : Coordinator) : Prop := ∀ id, d.memory.Mentions id → c.memory.Mentions id

/-- The request has committed: its identities are known, and no other is new. -/
def Committed (ids : List ReservationId) (c d : Coordinator) (x : Contents) : Prop :=
  (∀ id ∈ ids, d.memory.Knows id ∧ x.Knows id) ∧
    ∀ id, d.memory.Mentions id → c.memory.Mentions id ∨ id ∈ ids

/-- A move of such a request, seen from the state in which the request has started. -/
theorem keeps_creates (creates : a.Creates attempt terms requestedId) (c₀ : Coordinator) :
    System.Keeps (fun s a' => s = .up c₀ ∧ a' = a)
      (fun c x => Complete c x ∧ (Unchanged c₀ c ∨
        Committed (establishedBy attempt terms requestedId) c₀ c x)) (fun _ _ => True) where
  move := by
    rintro s a' c c' x m ⟨-, rfl⟩ own idle sound ⟨complete, before⟩ takes
    refine ⟨keeps_complete.move (s := s) (a := a') trivial own idle sound complete takes, ?_⟩
    have memory := Coordinator.memory_takes idle takes
    by_cases commit : ∃ p victims, m = .create p victims
    · obtain ⟨p, victims, rfl⟩ := commit
      obtain ⟨ids, -, fresh⟩ := createRecords_ids creates own takes.1
      have windows := (expandSeries_length takes.1.intervals).2
      have records := Coordinator.createMutation_records c victims windows
      have registered : ∀ id ∈ establishedBy attempt terms requestedId, ∃ r,
          Recollection.record r ∈ (Move.create p victims).recollections c ∧ r.id = id := by
        intro id mem
        rw [← ids] at mem
        obtain ⟨r, there, rfl⟩ := List.mem_map.mp mem
        refine ⟨r, List.mem_append_left _ (List.mem_map_of_mem ?_), rfl⟩
        rw [records]
        exact there
      refine .inr ⟨fun id mem => ?_, fun id mentioned => ?_⟩
      · obtain ⟨r, there, same⟩ := registered id mem
        rw [memory]
        exact ⟨Memory.knows_foldl there same, Coordinator.names_logs idle takes there same⟩
      · rw [memory] at mentioned
        rcases Memory.mentions_foldl mentioned with known | ⟨t, mem, names⟩
        · rcases before with unchanged | committed
          · exact .inl (unchanged id known)
          · exact committed.2 id known
        · refine .inr ?_
          rcases List.mem_append.mp mem with mem | mem
          · obtain ⟨r, there, rfl⟩ := List.mem_map.mp mem
            rw [records] at there
            rw [← ids]
            exact List.mem_map.mpr ⟨r, there, names⟩
          · obtain rfl := List.mem_singleton.mp mem
            exact names.elim
    · have same : ∀ id, c'.memory.Mentions id → c.memory.Mentions id := by
        intro id mentioned
        rw [memory] at mentioned
        rcases Memory.mentions_foldl mentioned with known | ⟨t, mem, names⟩
        · exact known
        · exact (names_creates creates own takes mem names).resolve_left commit
      rcases before with unchanged | committed
      · exact .inl fun id mentioned => unchanged id (same id mentioned)
      · refine .inr ⟨fun id mem => ?_, fun id mentioned => committed.2 id (same id mentioned)⟩
        obtain ⟨known, there⟩ := committed.1 id mem
        rw [memory]
        exact ⟨known.foldl _, Coordinator.knows_leaves idle known there m⟩
  recover := by
    rintro config disk faults c x a' ⟨no, -⟩
    cases no
  close := fun _ _ => trivial

/-- Once its identities are known, such a request establishes nothing. -/
theorem keeps_recreates (creates : a.Creates attempt terms requestedId) (c₀ : Coordinator) :
    System.Keeps (fun s a' => s = .up c₀ ∧ a' = a)
      (fun c _ => (∀ id ∈ establishedBy attempt terms requestedId, c.memory.Knows id) ∧
        Unchanged c₀ c) (fun _ _ => True) where
  move := by
    rintro s a' c c' _ m ⟨-, rfl⟩ own idle - ⟨known, unchanged⟩ takes
    have memory := Coordinator.memory_takes idle takes
    rw [memory]
    refine ⟨fun id mem => (known id mem).foldl _, fun id mentioned => unchanged id ?_⟩
    rw [memory] at mentioned
    rcases Memory.mentions_foldl mentioned with before | ⟨t, mem, names⟩
    · exact before
    · refine (names_creates creates own takes mem names).resolve_left ?_
      rintro ⟨p, victims, rfl⟩
      obtain ⟨-, some, fresh⟩ := createRecords_ids creates own takes.1
      obtain ⟨id', mem'⟩ := List.exists_mem_of_ne_nil _ some
      have current := (known id' mem').1
      change c.currentGeneration[id']?.isSome = true at current
      rw [fresh id' mem'] at current
      exact absurd current (by decide)
  recover := by
    rintro config disk faults c x a' ⟨no, -⟩
    cases no
  close := fun _ _ => trivial

/-- Every reachable coordinator is complete. -/
theorem reachable_complete {as : List Action} {c : Coordinator} (h : System.run as = .up c) :
    Idle c ∧ ∃ x, Written c.store.disk x ∧ SoundContents x ∧ Complete c x := by
  have held : System.Holds Complete (fun _ _ => True) (System.run as) :=
    System.holds_always keeps_complete (System.holds_initial trivial) as
  rwa [h] at held

/-- A new identity is one of the request's, and then all of them are known. -/
theorem establishes_creates (creates : a.Creates attempt terms requestedId) {as : List Action}
    {id : ReservationId} (h : Establishes (System.run as) (System.run (as ++ [a])) id) :
    id ∈ establishedBy attempt terms requestedId ∧
      ∀ id ∈ establishedBy attempt terms requestedId, System.Holds
        (fun c x => c.memory.Knows id ∧ x.Knows id) (fun _ x => x.Knows id)
          (System.run (as ++ [a])) := by
  obtain ⟨c, c', before, behind, none, some⟩ := establishes_up h
  obtain ⟨idle, x, written, sound, complete⟩ := reachable_complete before
  have step := System.holds_step (keeps_creates creates c) (s := .up c) (a := a)
    ⟨idle, x, written, sound, complete, .inl fun _ h => h⟩ ⟨rfl, rfl⟩
  have next : System.run (as ++ [a]) = System.step (.up c) a := by
    rw [← before]
    exact System.run_snoc as a
  have fresh : ¬ c.memory.Mentions id := by
    intro mentioned
    have current : c.currentGeneration[id]?.isSome = true := (complete id mentioned).1.1
    rw [none] at current
    exact absurd current (by decide)
  rw [← next, behind] at step
  obtain ⟨idle', x', written', sound', -, unchanged | committed⟩ := step
  · exact absurd (unchanged id (.inl some)) fresh
  · refine ⟨(committed.2 id (.inl some)).resolve_left fresh, fun id' mem => ?_⟩
    rw [behind]
    exact ⟨idle', x', written', sound', committed.1 id' mem⟩

/-- **No double commit.** The identities a create establishes are those of one reservation or of one
series, and once it has established any, no submission of it establishes one again, whatever happens
in between. -/
theorem no_double_commit (as bs : List Action) {b : Action}
    (ha : a.Creates attempt terms requestedId) (hb : b.Creates attempt terms requestedId) :
    (∀ id, Establishes (System.run as) (System.run (as ++ [a])) id →
      id ∈ establishedBy attempt terms requestedId) ∧
    ((∃ id, Establishes (System.run as) (System.run (as ++ [a])) id) →
      ∀ id, ¬ Establishes (System.run (as ++ [a] ++ bs))
        (System.run (as ++ [a] ++ bs ++ [b])) id) := by
  refine ⟨fun id new => (establishes_creates ha new).1, ?_⟩
  rintro ⟨id, new⟩ id' again
  obtain ⟨c, c', before, behind, none, some⟩ := establishes_up again
  have known : ∀ id ∈ establishedBy attempt terms requestedId, c.memory.Knows id := by
    intro id mem
    have held := System.holds_always (keeps_known id) ((establishes_creates ha new).2 id mem) bs
    rw [← System.run_append, before] at held
    obtain ⟨-, -, -, -, known, -⟩ := held
    exact known
  obtain ⟨idle, x, written, sound, complete⟩ := reachable_complete before
  have step := System.holds_step (keeps_recreates hb c) (s := .up c) (a := b)
    ⟨idle, x, written, sound, known, fun _ h => h⟩ ⟨rfl, rfl⟩
  have next : System.run (as ++ [a] ++ bs ++ [b]) = System.step (.up c) b := by
    rw [← before]
    exact System.run_snoc _ b
  rw [← next, behind] at step
  obtain ⟨-, -, -, -, -, unchanged⟩ := step
  have current : c.currentGeneration[id']?.isSome = true :=
    (complete id' (unchanged id' (.inl some))).1.1
  rw [none] at current
  exact absurd current (by decide)

end

/-- A create, other requests and a restart, and the create again. -/
theorem no_double_commit_restarted :
    let before := [System.Sample.opened 0, System.Sample.ingested]
    let between := [System.Sample.created 1 4 101 30 51, { event := .stop }, System.Sample.opened 0]
    let again := System.Sample.created 2 5 100 60 50
    ∀ id, ¬ Establishes (System.run (before ++ [System.Sample.created 1 3 100 60 50] ++ between))
      (System.run (before ++ [System.Sample.created 1 3 100 60 50] ++ between ++ [again])) id :=
  (@no_double_commit 100 (System.Sample.terms 60) 50 (System.Sample.created 1 3 100 60 50)
    [System.Sample.opened 0, System.Sample.ingested]
    [System.Sample.created 1 4 101 30 51, { event := .stop }, System.Sample.opened 0]
    (System.Sample.created 2 5 100 60 50)
    ⟨3, _, false, [], rfl, rfl⟩ ⟨5, _, false, [], rfl, rfl⟩).2 ⟨50, by decide +kernel⟩

end Brf
