import Brf.Timelines

/-!
# The five structures of an index

An index keeps one set of entries in its bookkeeping keys, in the listings by start, in the counts of
a resource and of the index, and in the trees. They stay in step under every sequence of calls.

* `Command` is a call that changes an index; `execute` is what it leaves.
* `Coherent` says that the structures agree: keys and entries correspond one to one, the counts count
  the entries, and the trees read their sums at every instant.
* `Fills` is what insertions do to the invariant: sums only grow, so the bound on those at the end of
  `replace_all` is a bound on those in between.

Results: `index_representation`.
-/

namespace Brf

open Brf.Lib

namespace CapacityIndex

/-! ## Commands -/

/-- `CapacityIndex::clear`. -/
def clear : Method Unit := set ({} : CapacityIndex)

/-- A call that changes an index. -/
inductive Command where
  | insert (e : IndexEntry)
  | erase (kind : HolderKind) (id : Identity128) (generation : Counter) (resource : ResourceName)
  | eraseAll (kind : HolderKind) (id : Identity128)
  | replaceAll (kind : HolderKind) (id : Identity128) (entries : List IndexEntry)
  | clear

/-- The method of a command. -/
def Command.method : Command → Method Unit
  | .insert e => CapacityIndex.insert e
  | .erase kind id generation resource => CapacityIndex.erase kind id generation resource
  | .eraseAll kind id => CapacityIndex.eraseAll kind id
  | .replaceAll kind id entries => CapacityIndex.replaceAll kind id entries
  | .clear => CapacityIndex.clear

/-- The entries that a command brings. -/
def Command.entries : Command → List IndexEntry
  | .insert e => [e]
  | .replaceAll _ _ entries => entries
  | _ => []

/-- The index executes a command. -/
def execute (x : CapacityIndex) (command : Command) : CapacityIndex := (command.method.exec x).2

/-- The interval lies inside the timeline; it may be empty. -/
def Inside (e : IndexEntry) : Prop :=
  0 ≤ e.interval.start.val ∧ e.interval.stop.val ≤ maxTimestampNs

instance (e : IndexEntry) : Decidable (Inside e) := inferInstanceAs (Decidable (_ ∧ _))

/-- What comes lies inside the timeline, and afterwards every sum is below `2 ^ 62`. -/
def Permitted (x : CapacityIndex) (command : Command) : Prop :=
  (∀ e ∈ command.entries, Inside e) ∧ ∀ n t, (execute x command).load n t < 2 ^ 62

/-- The structures of the index agree. -/
structure Coherent (x : CapacityIndex) : Prop where
  /-- A key stands for an entry, and every entry has its key. -/
  keyed : ∀ (i : EntryIdentity) (t : Timestamp), x.entries[i]? = some t ↔
    ∃ e, x.Has e ∧ e.identity = i ∧ e.interval.start = t
  single : ∀ a b, x.Has a → x.Has b → a.identity = b.identity → a = b
  filed : ∀ n, ∀ e ∈ x.entriesOn n, e.resource = n
  once : ∀ n, (x.entriesOn n).Nodup
  counted : ∀ (n : ResourceName) (s : ResourceState), x.resources[n]? = some s →
    s.entryCount = s.byStart.length
  total : x.entryCount = x.allEntries.length
  committed : ∀ n t, ((x.stateOf n).committed.at' t).val = x.loadOf .reservation n t
  holds : ∀ n t, ((x.stateOf n).holds.at' t).val = x.loadOf .hold n t
  combined : ∀ n t,
    ((x.stateOf n).combined.at' t).val = x.loadOf .reservation n t + x.loadOf .hold n t

/-- A failing `replace_all` has erased entries of the holder, or has inserted one. -/
def PartlyReplaced (x : CapacityIndex) : Command → Prop
  | .replaceAll kind id entries => x.contains kind id = true ∨
      ∃ first rest, entries = first :: rest ∧ ((CapacityIndex.insert first).exec x).1 = .ok ()
  | _ => False

/-! ## The invariant -/

/-- The count of the index is that of its keys. -/
def Tallied (x : CapacityIndex) : Prop := x.entryCount = x.entries.toList.length

/-- The invariant of the representation. -/
structure Represented (x : CapacityIndex) : Prop where
  wf : x.Wf
  exact : x.Exact
  tallied : x.Tallied

theorem represented_new : Represented {} := ⟨wf_empty, exact_new, rfl⟩

section

variable {x y z : CapacityIndex} {e : IndexEntry} {n : ResourceName}

/-- Keys and entries correspond one to one. -/
theorem Wf.key_iff (h : x.Wf) {i : EntryIdentity} {t : Timestamp} :
    x.entries[i]? = some t ↔ ∃ e, x.Has e ∧ e.identity = i ∧ e.interval.start = t := by
  constructor
  · intro key
    obtain ⟨e, has, rfl⟩ := h.placed i t key
    rw [h.keyed e has] at key
    exact ⟨e, has, rfl, Option.some.inj key⟩
  · rintro ⟨e, has, rfl, rfl⟩
    exact h.keyed e has

/-- No two entries have one key. -/
theorem Wf.allEntries_single (h : x.Wf) :
    x.allEntries.Pairwise fun a b => a.identity ≠ b.identity := by
  unfold allEntries
  refine List.pairwise_flatMap.mpr ⟨fun filed listed => ?_, ?_⟩
  · exact (h.filed _ _ (Map.mem_toList.mp listed)).single
  · refine (List.Pairwise.and_mem.mp (Map.pairwise_toList x.resources)).imp ?_
    rintro p q ⟨hp, hq, apart⟩ a ha b hb same
    have ha := (h.filed _ _ (Map.mem_toList.mp hp)).here a ha
    have hb := (h.filed _ _ (Map.mem_toList.mp hq)).here b hb
    exact apart (ha.symm.trans ((congrArg EntryIdentity.resource same).trans hb))

/-- There are as many entries as keys. -/
theorem Wf.length_allEntries (h : x.Wf) : x.allEntries.length = x.entries.toList.length := by
  have entries : (x.allEntries.map IndexEntry.identity).Nodup :=
    List.pairwise_map.mpr h.allEntries_single
  have keys : (x.entries.toList.map Prod.fst).Nodup :=
    List.pairwise_map.mpr (Map.pairwise_toList x.entries)
  have perm : (x.allEntries.map IndexEntry.identity).Perm (x.entries.toList.map Prod.fst) := by
    refine (List.perm_ext_iff_of_nodup entries keys).mpr fun i => ?_
    rw [List.mem_map, List.mem_map]
    constructor
    · rintro ⟨e, mem, rfl⟩
      exact ⟨_, Map.mem_toList.mpr (h.keyed e ((mem_allEntries h).mp mem)), rfl⟩
    · rintro ⟨⟨i, t⟩, mem, rfl⟩
      obtain ⟨e, has, same⟩ := h.placed i t (Map.mem_toList.mp mem)
      exact ⟨e, (mem_allEntries h).mpr has, same⟩
  simpa using perm.length_eq

/-- Reservations and holds make up the load of an instant. -/
theorem load_eq (x : CapacityIndex) (n : ResourceName) (t : Timestamp) :
    x.load n t.val = x.loadOf .reservation n t + x.loadOf .hold n t := by
  unfold load loadOf
  induction x.entriesOn n with
  | nil => rfl
  | cons e es ih =>
    cases kind : e.kind with
    | reservation => simp [kind, ih, add_assoc]
    | hold =>
      simp [kind, ih]
      omega

end

end CapacityIndex

namespace IntervalIndex

/-- A tree reads the sum of what it stores at every instant, on the timeline or off it. -/
theorem Tracks.at_eq {x : IntervalIndex} {us : List Usage} (h : x.Tracks us) (t : Timestamp) :
    (x.at' t).val = loadAt us t.val := by
  by_cases inside : 0 ≤ t.val ∧ t.val < maxTimestampNs
  · exact h.at_exact inside.1 inside.2
  · have outside : t.val < 0 ∨ maxTimestampNs ≤ t.val := by omega
    rw [loadAt_outside h.valid outside]
    unfold at'
    rw [if_pos (by simpa using outside)]
    rfl

end IntervalIndex

namespace CapacityIndex

variable {x y z : CapacityIndex} {e : IndexEntry} {n : ResourceName}

theorem Represented.coherent (h : x.Represented) : x.Coherent where
  keyed _ _ := h.wf.key_iff
  single _ _ ha hb same := h.wf.unique ha hb same
  filed _ _ mem := ((mem_entriesOn h.wf).mp mem).2
  once n := nodup_entriesOn h.wf n
  counted n s there := (h.wf.filed n s there).counted
  total := h.tallied.trans h.wf.length_allEntries.symm
  committed n t := (exact_stateOf h.exact n).committed.at_eq t
  holds n t := (exact_stateOf h.exact n).holds.at_eq t
  combined n t := ((exact_stateOf h.exact n).combined.at_eq t).trans (load_eq x n t)

/-! ## One entry -/

/-- The index with one entry more. -/
def inserted (x : CapacityIndex) (e : IndexEntry) : CapacityIndex :=
  { x with
    resources := x.resources.insert e.resource (x.resources[e.resource]?.getD {} |>.insert e)
    entries := x.entries.insert e.identity e.interval.start
    entryCount := x.entryCount + 1 }

/-- `insert` adds the entry under a new key, or changes nothing. -/
theorem ensures_insert_run (x : CapacityIndex) (e : IndexEntry) :
    Op.Ensures (insert e) x fun r y => match r with
      | .ok _ => x.entries[e.identity]? = none ∧ y = x.inserted e
      | .error _ => y = x := by
  unfold insert
  refine Op.ensures_refuseIf_bind (fun _ => ?_) fun _ => rfl
  refine Op.ensures_refuseIf_bind (fun _ => ?_) fun _ => rfl
  refine Op.ensures_refuseIf_bind (fun _ => ?_) fun _ => rfl
  apply Op.ensures_get_bind
  refine Op.ensures_refuseIf_bind (fun fresh => ?_) fun _ => rfl
  exact Op.ensures_set
    ⟨Option.isNone_iff_eq_none.mp (Option.isSome_eq_false_iff.mp fresh), rfl⟩

/-- `erase` removes a key, or changes nothing. -/
theorem ensures_erase_run (x : CapacityIndex) (kind : HolderKind) (id : Identity128)
    (generation : Counter) (resource : ResourceName) :
    Op.Ensures (erase kind id generation resource) x fun r y => match r with
      | .ok _ => (∃ t, x.entries[(⟨kind, id, resource⟩ : EntryIdentity)]? = some t) ∧
          y.entries = x.entries.erase ⟨kind, id, resource⟩ ∧ y.entryCount = x.entryCount - 1
      | .error _ => y = x := by
  unfold erase
  apply Op.ensures_get_bind
  dsimp only
  split
  · exact Op.ensures_throw rfl
  · rename_i t key
    split
    · exact Op.ensures_throw rfl
    · split
      · exact Op.ensures_throw rfl
      · exact Op.ensures_set ⟨⟨t, key⟩, rfl, rfl⟩

theorem Tallied.inserted (h : x.Tallied) (fresh : x.entries[e.identity]? = none) :
    (x.inserted e).Tallied := by
  unfold Tallied
  refine Eq.trans ?_ (Map.length_toList_insert fresh e.interval.start).symm
  exact congrArg (· + 1) h

theorem entriesOn_inserted (x : CapacityIndex) (e : IndexEntry) (n : ResourceName) :
    ((x.inserted e).entriesOn n).Perm
      (if n = e.resource then e :: x.entriesOn n else x.entriesOn n) := by
  unfold entriesOn inserted
  dsimp only
  rw [Map.get_insert]
  by_cases here : n = e.resource
  · subst here
    rw [if_pos rfl, if_pos rfl]
    refine (ResourceState.insert_perm _ e).trans ?_
    cases x.resources[e.resource]? <;> exact List.Perm.refl _
  · rw [if_neg here, if_neg here]

/-- Sums do not shrink. -/
theorem load_le_inserted (x : CapacityIndex) (positive : 0 < e.amount.val) (n : ResourceName) (t : Int) :
    x.load n t ≤ (x.inserted e).load n t := by
  have step : 0 ≤ Usage.at' e.usage t := by
    unfold Usage.at'
    split
    · exact positive.le
    · exact le_rfl
  unfold load
  rw [loadAt_perm ((entriesOn_inserted x e n).map _)]
  by_cases here : n = e.resource
  · rw [if_pos here, List.map_cons, loadAt_cons]
    omega
  · rw [if_neg here]

theorem load_inserted (x : CapacityIndex) (e : IndexEntry) (t : Int) :
    loadAt ((e :: x.entriesOn e.resource).map IndexEntry.usage) t =
      (x.inserted e).load e.resource t := by
  unfold load
  rw [loadAt_perm ((entriesOn_inserted x e e.resource).map _), if_pos rfl]

/-! ## Filling -/

/-- Insertions keep the invariant, as far as the sums at the end allow it. -/
structure Filled (x y : CapacityIndex) : Prop where
  wf : y.Wf
  tallied : x.Tallied → y.Tallied
  grows : ∀ n t, x.load n t ≤ y.load n t
  exact : x.Exact → (∀ n t, y.load n t < 2 ^ 62) → y.Exact

/-- The same, from a consistent index. -/
def Fills (x y : CapacityIndex) : Prop := x.Wf → Filled x y

theorem Fills.refl (x : CapacityIndex) : Fills x x := fun wf =>
  ⟨wf, id, fun _ _ => le_rfl, fun exact _ => exact⟩

theorem Fills.trans (first : Fills x y) (second : Fills y z) : Fills x z := fun wf =>
  have h := first wf
  have h' := second h.wf
  { wf := h'.wf
    tallied := fun tallied => h'.tallied (h.tallied tallied)
    grows := fun n t => le_trans (h.grows n t) (h'.grows n t)
    exact := fun exact below => h'.exact
      (h.exact exact fun n t => lt_of_le_of_lt (h'.grows n t) (below n t)) below }

/-- An insertion. -/
theorem fills_insert (inside : Inside e) : Op.Within Fills (insert e) := fun x wf => by
  refine ((ensures_insert wf e).and (ensures_insert_run x e)).mono (R := fun _ y => Filled x y) ?_
  rintro (err | ⟨⟩) y ⟨⟨wf', spec⟩, run⟩
  · obtain rfl : y = x := run
    exact Fills.refl y wf
  · obtain ⟨fresh, rfl⟩ := run
    have nonempty : e.interval.start < e.interval.stop := by
      simpa [Interval.empty] using spec.1.nonempty
    have placed : e.usage.Valid := ⟨inside.1, nonempty, inside.2, spec.1.positive⟩
    refine ⟨wf', fun tallied => tallied.inserted fresh, load_le_inserted x spec.1.positive,
      fun exact below => EveryIn.insert exact (exact.entered placed fun t => ?_)⟩
    have bound := below e.resource t
    have top : IntervalIndex.maxLoad + 1 = 2 ^ 62 := by decide
    rw [load_inserted]
    omega

theorem fills_insertAll {entries : List IndexEntry} (inside : ∀ e ∈ entries, Inside e)
    (x : CapacityIndex) : Op.Ensures (Op.each insert entries) x fun _ y => Fills x y :=
  Op.each_moves Fills.refl Fills.trans fun e mem => fills_insert (inside e mem)

/-! ## Steps -/

theorem Represented.erase (h : x.Represented) (kind : HolderKind) (id : Identity128)
    (generation : Counter) (resource : ResourceName) :
    Op.Ensures (erase kind id generation resource) x fun _ y => y.Represented := by
  have run := ensures_erase_run x kind id generation resource
  refine ((wf_erase h.wf kind id generation resource).and
    ((exact_erase h.exact kind id generation resource).and run)).mono ?_
  rintro (err | ⟨⟩) y ⟨wf, exact, run⟩
  · obtain rfl : y = x := run
    exact h
  · obtain ⟨⟨t, there⟩, entries, count⟩ := run
    refine ⟨wf, exact, ?_⟩
    have tallied := h.tallied
    have one := Map.length_toList_erase there
    unfold Tallied at tallied ⊢
    rw [entries, count]
    omega

theorem Tallied.eraseAll (h : x.Tallied) (wf : x.Wf) (kind : HolderKind) (id : Identity128) :
    Op.Ensures (eraseAll kind id) x fun _ y => y.Tallied := by
  have run := wf.exec_eraseAll kind id
  by_cases none : x.keysOf kind id = []
  · rw [if_pos none] at run
    exact Op.Ensures.of_exec run h
  · rw [if_neg none] at run
    refine Op.Ensures.of_exec run ?_
    have fewer := Map.length_toList_foldl_erase (keysOf_apart x kind id) fun k mem =>
      (CapacityIndex.mem_keysOf.mp mem).1
    unfold Tallied at h ⊢
    dsimp only
    omega

theorem Represented.eraseAll (h : x.Represented) (kind : HolderKind) (id : Identity128) :
    Op.Ensures (eraseAll kind id) x fun _ y => y.Represented :=
  ((ensures_eraseAll h.wf kind id).and ((exact_eraseAll h.exact kind id).and
    (h.tallied.eraseAll h.wf kind id))).mono fun _ _ ⟨kept, exact, tallied⟩ =>
      ⟨kept.1, exact, tallied⟩

/-- `replace_all` inserts into what `erase_all` leaves. -/
theorem Wf.exec_replaceAll (h : x.Wf) (kind : HolderKind) (id : Identity128)
    (entries : List IndexEntry) : (replaceAll kind id entries).exec x =
      (Op.each CapacityIndex.insert entries).exec ((CapacityIndex.eraseAll kind id).exec x).2 := by
  have run := h.exec_eraseAll kind id
  unfold replaceAll
  by_cases none : x.keysOf kind id = []
  · rw [if_pos none] at run
    rw [Op.exec_bind, Op.exec_attempt, run]
    rfl
  · rw [if_neg none] at run
    rw [Op.exec_bind, Op.exec_attempt, run]

/-- Insertions keep the invariant when no sum reaches `2 ^ 62` in the end. -/
theorem Represented.insertAll (h : x.Represented) {entries : List IndexEntry}
    (inside : ∀ e ∈ entries, Inside e)
    (below : ∀ n t, ((Op.each CapacityIndex.insert entries).exec x).2.load n t < 2 ^ 62) :
    ((Op.each CapacityIndex.insert entries).exec x).2.Represented := by
  have filled : Filled x ((Op.each CapacityIndex.insert entries).exec x).2 :=
    fills_insertAll inside x h.wf
  exact ⟨filled.wf, filled.exact h.exact below, filled.tallied h.tallied⟩

/-- **Step**: every permitted command keeps the invariant. -/
theorem represented_execute (x : CapacityIndex) (command : Command) (h : x.Represented)
    (permitted : Permitted x command) : (execute x command).Represented := by
  obtain ⟨inside, below⟩ := permitted
  cases command with
  | insert e =>
    have filled : Filled x (execute x (.insert e)) := fills_insert (inside e (by simp [Command.entries])) x h.wf
    exact ⟨filled.wf, filled.exact h.exact below, filled.tallied h.tallied⟩
  | erase kind id generation resource => exact h.erase kind id generation resource
  | eraseAll kind id => exact h.eraseAll kind id
  | replaceAll kind id entries =>
    have erased : ((CapacityIndex.eraseAll kind id).exec x).2.Represented := h.eraseAll kind id
    have run := congrArg Prod.snd (h.wf.exec_replaceAll kind id entries)
    change execute x (.replaceAll kind id entries) = _ at run
    rw [run] at below ⊢
    exact erased.insertAll inside below
  | clear => exact represented_new

/-! ## Refused commands -/

/-- A refused command changes nothing, unless it is a `replace_all` that has begun. -/
theorem unchanged_of_error (h : x.Wf) {command : Command} {err : Error}
    (refused : (command.method.exec x).1 = .error err) :
    execute x command = x ∨ PartlyReplaced x command := by
  cases command with
  | insert e =>
    have run := ensures_insert_run x e
    change ((CapacityIndex.insert e).exec x).1 = _ at refused
    unfold Op.Ensures at run
    rw [refused] at run
    exact .inl run
  | erase kind id generation resource =>
    have run := ensures_erase_run x kind id generation resource
    change ((CapacityIndex.erase kind id generation resource).exec x).1 = _ at refused
    unfold Op.Ensures at run
    rw [refused] at run
    exact .inl run
  | eraseAll kind id =>
    have run := ensures_eraseAll h kind id
    change ((CapacityIndex.eraseAll kind id).exec x).1 = _ at refused
    unfold Op.Ensures at run
    rw [refused] at run
    exact .inl run.2.2.2.1
  | replaceAll kind id entries =>
    by_cases held : x.contains kind id = true
    · exact .inr (.inl held)
    · have none : x.keysOf kind id = [] := by simpa [contains] using held
      have run := h.exec_eraseAll kind id
      rw [if_pos none] at run
      have whole := h.exec_replaceAll kind id entries
      rw [run] at whole
      cases entries with
      | nil =>
        change ((replaceAll kind id []).exec x).1 = _ at refused
        rw [whole] at refused
        cases refused
      | cons first rest =>
        have entered := ensures_insert_run x first
        unfold Op.Ensures at entered
        cases turn : (CapacityIndex.insert first).exec x with
        | mk r y =>
          rw [turn] at entered
          cases r with
          | ok _ => exact .inr (.inr ⟨first, rest, rfl, by rw [turn]⟩)
          | error e =>
            obtain rfl : y = x := entered
            exact .inl (congrArg Prod.snd (whole.trans (Op.exec_bind_of_error turn)))
  | clear => cases refused

/-! ## Runs -/

theorem represented_after {commands : List Command} (run : Along execute Permitted {} commands) :
    (after execute {} commands).Represented :=
  invariant_along execute represented_execute represented_new run

/-- After every sequence of permitted commands the structures of the index agree, and a command that
is refused then changes nothing, unless it is a `replace_all` that has begun. -/
theorem index_representation {commands : List Command}
    (run : Along execute Permitted {} commands) :
    (after execute {} commands).Coherent ∧
      ∀ (command : Command) (err : Error),
        (command.method.exec (after execute {} commands)).1 = .error err →
          execute (after execute {} commands) command = after execute {} commands ∨
            PartlyReplaced (after execute {} commands) command :=
  ⟨(represented_after run).coherent,
    fun _ _ refused => unchanged_of_error (represented_after run).wf refused⟩

/-! ## Holders with one start -/

/-- Entries of the timeline that are small together. -/
def Small (x : CapacityIndex) : Prop :=
  ∀ filed ∈ x.resources.toList,
    (∀ e ∈ filed.2.byStart, 0 ≤ e.interval.start.val ∧ e.interval.start.val < e.interval.stop.val ∧
      e.interval.stop.val ≤ maxTimestampNs ∧ 0 < e.amount.val) ∧
    (filed.2.byStart.map fun e => e.amount.val).sum < 2 ^ 62

instance (x : CapacityIndex) : Decidable x.Small := inferInstanceAs (Decidable (∀ _ ∈ _, _ ∧ _))

/-- No instant carries more than all the entries of its resource. -/
theorem Small.load_lt (h : x.Small) (n : ResourceName) (t : Int) : x.load n t < 2 ^ 62 := by
  unfold load entriesOn
  cases there : x.resources[n]? with
  | none =>
    change (0 : Int) < 2 ^ 62
    decide
  | some s =>
    obtain ⟨placed, total⟩ := h (n, s) (Map.mem_toList.mpr there)
    have valid : ∀ u ∈ s.byStart.map IndexEntry.usage, Usage.Valid u := by
      intro u mem
      obtain ⟨e, listed, rfl⟩ := List.mem_map.mp mem
      obtain ⟨start, nonempty, stop, positive⟩ := placed e listed
      exact ⟨start, nonempty, stop, positive⟩
    have le := loadAt_le_total valid t
    rw [List.map_map] at le
    exact lt_of_le_of_lt le total

namespace Sample

/-- A reservation and two holds that start at one instant. -/
def entry (kind : HolderKind) (id : Identity128) (stop : Timestamp) (amount : Bandwidth) : IndexEntry :=
  { kind, id, holderGeneration := 1, resource := FixedName.lit "link", interval := ⟨100, stop⟩, amount }

/-- The second insertion and the erasure are refused, and the replacement fails at its third entry. -/
def commands : List Command :=
  [.insert (entry .reservation 31 200 40), .insert (entry .reservation 31 300 5),
    .erase .reservation 31 2 (FixedName.lit "link"),
    .replaceAll .hold 7 [entry .hold 7 150 3, entry .hold 8 150 4, entry .hold 7 160 5]]

end Sample

theorem index_representation_shared : (after execute {} Sample.commands).Coherent ∧
    ∀ (command : Command) (err : Error),
      (command.method.exec (after execute {} Sample.commands)).1 = .error err →
        execute (after execute {} Sample.commands) command = after execute {} Sample.commands ∨
          PartlyReplaced (after execute {} Sample.commands) command :=
  index_representation
    ⟨⟨by decide, Small.load_lt (by decide +kernel)⟩, ⟨by decide, Small.load_lt (by decide +kernel)⟩,
      ⟨by decide, Small.load_lt (by decide +kernel)⟩, ⟨by decide, Small.load_lt (by decide +kernel)⟩,
      trivial⟩

end CapacityIndex

end Brf
