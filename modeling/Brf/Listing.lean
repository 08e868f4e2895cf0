import Brf.Exactness
import Brf.Lib.Twin
import Mathlib.Data.List.TakeWhile

/-!
# What an index says, and in which order

The listing of a resource is the order in which the index walks its entries: by start, and among
entries with one start in the order of their insertion.

* `Wf`, `Exact` and `Sorted` hold of every index that calls have built (`Built`); two built indexes
  with the same entries can differ in nothing but the order of equal starts.
* `Alike x y` says that they do not: everything the two list, they list in the same order.

Results: of alike indexes every query is the same (`Alike.overlapping`, `Alike.findAll`,
`Alike.peaks`), and removing an entry leaves them alike (`twin_erase`).
-/

namespace Brf

open Brf.Lib

/-- Two maxima of the same window are equal. -/
theorem IsPeakLoad.unique {us vs : List Usage} (perm : us.Perm vs) {window : Interval} {v w : Int}
    (hv : IsPeakLoad us window v) (hw : IsPeakLoad vs window w) : v = w := by
  obtain ⟨below, s, s_low, s_high, rfl⟩ := hv
  obtain ⟨below', t, t_low, t_high, rfl⟩ := hw
  refine le_antisymm ?_ ?_
  · rw [loadAt_perm perm]
    exact below' s s_low s_high
  · rw [← loadAt_perm perm]
    exact below t t_low t_high

namespace ResourceState

variable {s t : ResourceState} {e : IndexEntry}

/-- The entries are listed by their starts. -/
def Sorted (s : ResourceState) : Prop :=
  s.byStart.Pairwise fun a b => a.interval.start ≤ b.interval.start

theorem sorted_emplace {xs : List IndexEntry}
    (h : xs.Pairwise fun a b => a.interval.start ≤ b.interval.start) :
    (emplace e xs).Pairwise fun a b => a.interval.start ≤ b.interval.start := by
  induction xs with
  | nil => exact List.pairwise_singleton _ _
  | cons x xs ih =>
    obtain ⟨head, tail⟩ := List.pairwise_cons.mp h
    unfold emplace
    split
    · rename_i before
      refine List.pairwise_cons.mpr ⟨fun y hy => ?_, h⟩
      rcases List.mem_cons.mp hy with rfl | hy
      · exact before.le
      · exact before.le.trans (head y hy)
    · rename_i behind
      refine List.pairwise_cons.mpr ⟨fun y hy => ?_, ih tail⟩
      rcases List.mem_cons.mp ((emplace_perm e xs).mem_iff.mp hy) with rfl | hy
      · exact not_lt.mp behind
      · exact head y hy

theorem Sorted.insert (h : s.Sorted) (e : IndexEntry) : (s.insert e).Sorted := by
  have listed : (s.insert e).byStart = emplace e s.byStart :=
    congrArg (emplace e) (addTrees_byStart s e).1
  unfold Sorted
  rw [listed]
  exact sorted_emplace h

/-- What `removeFirst` leaves of the listing. -/
theorem byStart_removeFirst {q : IndexEntry → Bool} (removed : s.removeFirst q = some t) :
    t.byStart = s.byStart.eraseP q := by
  unfold ResourceState.removeFirst at removed
  cases found : s.byStart.find? q with
  | none =>
    rw [found] at removed
    cases removed
  | some e =>
    rw [found] at removed
    obtain rfl := Option.some.inj removed
    exact congrArg (List.eraseP q) (removeTrees_byStart s e).1

theorem Filed.of_removeFirst {n : ResourceName} (h : s.Filed n) {q : IndexEntry → Bool}
    (removed : s.removeFirst q = some t) : t.Filed n := by
  have listed := byStart_removeFirst removed
  refine ⟨fun e he => h.here e ?_, ?_, ?_⟩
  · rw [listed] at he
    exact List.mem_of_mem_eraseP he
  · rw [listed]
    exact h.single.sublist List.eraseP_sublist
  · unfold ResourceState.removeFirst at removed
    cases found : s.byStart.find? q with
    | none =>
      rw [found] at removed
      cases removed
    | some e =>
      have counted : t.entryCount = s.entryCount - 1 := by
        rw [found] at removed
        obtain rfl := Option.some.inj removed
        exact congrArg (· - 1) (removeTrees_byStart s e).2
      rw [counted, h.counted, listed,
        List.length_eraseP_of_mem (List.mem_of_find?_eq_some found) (List.find?_some found)]

theorem Sorted.removeFirst (h : s.Sorted) {q : IndexEntry → Bool}
    (removed : s.removeFirst q = some t) : t.Sorted := by
  unfold Sorted
  rw [byStart_removeFirst removed]
  exact List.Pairwise.sublist List.eraseP_sublist h

theorem Sorted.removeEvery (h : s.Sorted) (q : IndexEntry → Bool) : (s.removeEvery q).Sorted :=
  List.Pairwise.filter _ h

end ResourceState

namespace IntervalIndex

/-- Trees that store the same amounts have the same peaks. -/
theorem Tracks.peak_eq {x y : IntervalIndex} {us vs : List Usage} (hx : x.Tracks us)
    (hy : y.Tracks vs) (perm : us.Perm vs) (window : Interval) : x.peak window = y.peak window := by
  by_cases nonempty : window.start.val < window.stop.val
  · exact I64.ext (IsPeakLoad.unique perm (peak_exact hx nonempty) (peak_exact hy nonempty))
  · have order : ¬ window.start < window.stop := nonempty
    simp [peak, Interval.empty, order]

theorem peak_new (window : Interval) : ({} : IntervalIndex).peak window = 0 := by
  by_cases nonempty : window.start.val < window.stop.val
  · obtain ⟨-, t, -, -, top⟩ := peak_exact tracks_new nonempty
    exact I64.ext top.symm
  · have order : ¬ window.start < window.stop := nonempty
    simp [peak, Interval.empty, order]

end IntervalIndex

namespace CapacityIndex

/-! ## Built indexes -/

/-- `erase` keeps the index consistent, whatever it is called with. -/
theorem wf_erase {x : CapacityIndex} (h : x.Wf) (kind : HolderKind) (id : Identity128)
    (generation : Counter) (resource : ResourceName) :
    Op.Ensures (erase kind id generation resource) x fun _ y => y.Wf := by
  cases key : x.entries[(⟨kind, id, resource⟩ : EntryIdentity)]? with
  | none =>
    unfold CapacityIndex.erase
    apply Op.ensures_get_bind
    simp only [key]
    exact Op.ensures_throw h
  | some start =>
    obtain ⟨e, has, same⟩ := h.placed _ _ key
    obtain ⟨rfl, rfl, rfl⟩ : e.kind = kind ∧ e.id = id ∧ e.resource = resource := by
      simpa [IndexEntry.identity] using same
    by_cases generation_eq : e.holderGeneration = generation
    · subst generation_eq
      exact (ensures_erase h has).mono fun _ _ done => done.2.1
    · have placed := has
      obtain ⟨s, there, mem⟩ := placed
      have none : s.removeFirst (fun f => f.interval.start = start && f.id = e.id &&
          f.holderGeneration = generation && f.kind = e.kind) = none := by
        unfold ResourceState.removeFirst
        have missing : s.byStart.find? (fun f => f.interval.start = start && f.id = e.id &&
            f.holderGeneration = generation && f.kind = e.kind) = none := by
          refine List.find?_eq_none.mpr fun f hf picked => ?_
          simp only [Bool.and_eq_true, decide_eq_true_eq] at picked
          obtain ⟨⟨⟨-, same_id⟩, same_generation⟩, same_kind⟩ := picked
          obtain rfl := (h.filed _ _ there).unique hf mem same_kind same_id
          exact generation_eq same_generation
        rw [missing]
      unfold CapacityIndex.erase
      apply Op.ensures_get_bind
      simp only [key, there, none]
      exact Op.ensures_throw h

theorem wf_step (x : CapacityIndex) (call : Call) (h : x.Wf) : (step x call).Wf := by
  cases call with
  | insert e => exact (ensures_insert h e).mono (R := fun _ y => y.Wf) fun _ _ done => done.1
  | erase kind id generation resource => exact wf_erase h kind id generation resource
  | eraseAll kind id =>
    exact (ensures_eraseAll h kind id).mono (R := fun _ y => y.Wf) fun _ _ done => done.1

theorem sorted_step (x : CapacityIndex) (call : Call)
    (h : EveryIn ResourceState.Sorted x.resources) :
    EveryIn ResourceState.Sorted (step x call).resources := by
  cases call with
  | insert e =>
    refine every_insert h ?_
    cases there : x.resources[e.resource]? with
    | none => exact ResourceState.Sorted.insert (s := {}) List.Pairwise.nil e
    | some s => exact (h _ _ there).insert e
  | erase kind id generation resource =>
    exact every_erase (fun h removed => h.removeFirst removed) h kind id generation resource
  | eraseAll kind id =>
    exact every_eraseAll (fun h removed => h.removeFirst removed) (fun q h => h.removeEvery q) h
      kind id

theorem Built.wf {x : CapacityIndex} (h : x.Built) : x.Wf := by
  obtain ⟨calls, allowed, rfl⟩ := h
  exact invariant_along step (I := Wf) (fun x call wf _ => wf_step x call wf) wf_empty allowed

theorem Built.sorted {x : CapacityIndex} (h : x.Built) :
    EveryIn ResourceState.Sorted x.resources := by
  obtain ⟨calls, allowed, rfl⟩ := h
  exact invariant_along step (I := fun x => EveryIn ResourceState.Sorted x.resources)
    (fun x call sorted _ => sorted_step x call sorted) (fun _ _ no => absurd no (by simp)) allowed

/-! ## Listings -/

theorem mem_entriesOn {x : CapacityIndex} (h : x.Wf) {n : ResourceName} {e : IndexEntry} :
    e ∈ x.entriesOn n ↔ x.Has e ∧ e.resource = n := by
  unfold entriesOn Has HasIn
  constructor
  · intro mem
    cases there : x.resources[n]? with
    | none => simp [there] at mem
    | some s =>
      have mem : e ∈ s.byStart := by simpa [there] using mem
      have here := (h.filed _ _ there).here e mem
      exact ⟨⟨s, here ▸ there, mem⟩, here⟩
  · rintro ⟨⟨s, there, mem⟩, rfl⟩
    simpa [there] using mem

theorem nodup_entriesOn {x : CapacityIndex} (h : x.Wf) (n : ResourceName) :
    (x.entriesOn n).Nodup := by
  unfold entriesOn
  cases there : x.resources[n]? with
  | none => exact List.nodup_nil
  | some s =>
    refine List.Pairwise.imp ?_ (h.filed _ _ there).single
    rintro a b apart rfl
    exact apart rfl

/-- Indexes with the same entries list the same entries on every resource. -/
theorem entriesOn_perm {x y : CapacityIndex} (hx : x.Wf) (hy : y.Wf)
    (same : ∀ e, x.Has e ↔ y.Has e) (n : ResourceName) :
    (x.entriesOn n).Perm (y.entriesOn n) := by
  refine (List.perm_ext_iff_of_nodup (nodup_entriesOn hx n) (nodup_entriesOn hy n)).mpr fun e => ?_
  rw [mem_entriesOn hx, mem_entriesOn hy, same]

/-- The entries of all resources, by resource. -/
def allEntries (x : CapacityIndex) : List IndexEntry :=
  x.resources.toList.flatMap fun filed => filed.2.byStart

theorem mem_allEntries {x : CapacityIndex} (h : x.Wf) {e : IndexEntry} :
    e ∈ x.allEntries ↔ x.Has e := by
  unfold allEntries Has HasIn
  rw [List.mem_flatMap]
  constructor
  · rintro ⟨⟨n, s⟩, listed, mem⟩
    have there := Map.mem_toList.mp listed
    obtain rfl := (h.filed n s there).here e mem
    exact ⟨s, there, mem⟩
  · rintro ⟨s, there, mem⟩
    exact ⟨(e.resource, s), Map.mem_toList.mpr there, mem⟩

/-- The listings of all resources. -/
def listings (x : CapacityIndex) : Map ResourceName (List IndexEntry) :=
  x.resources.map fun _ s => s.byStart

theorem entriesOn_eq (x : CapacityIndex) (n : ResourceName) :
    x.entriesOn n = x.listings[n]?.getD [] := by
  unfold entriesOn listings
  rw [Std.ExtTreeMap.getElem?_map]

/-- The walk of `overlapping` over a listing. -/
def walk (listing : List IndexEntry) (window : Interval) (outputLimit scanLimit : Nat) : Overlaps :=
  if window.empty then {}
  else
    let before := listing.takeWhile fun e => e.interval.start < window.stop
    let matched := (before.take scanLimit).filter fun e => window.start < e.interval.stop
    let out := matched.take outputLimit
    { entries := out.insertionSort fun a b => reportOrder a b
      total := matched.length
      truncated := scanLimit < before.length || out.length < matched.length }

theorem overlapping_eq (x : CapacityIndex) (n : ResourceName) (window : Interval)
    (outputLimit scanLimit : Nat) :
    x.overlapping n window outputLimit scanLimit =
      walk (x.entriesOn n) window outputLimit scanLimit := by
  unfold overlapping entriesOn
  cases there : x.resources[n]? with
  | none => simp [walk]
  | some s => rfl

/-- What a bounded walk reports is listed and overlaps the window. -/
theorem mem_walk {listing : List IndexEntry} {window : Interval}
    {outputLimit scanLimit : Nat} {e : IndexEntry}
    (mem : e ∈ (walk listing window outputLimit scanLimit).entries) :
    e ∈ listing ∧ e.interval.start < window.stop ∧ window.start < e.interval.stop := by
  unfold walk at mem
  split at mem
  · exact absurd mem List.not_mem_nil
  · have listed := List.mem_of_mem_take ((List.perm_insertionSort _ _).mem_iff.mp mem)
    obtain ⟨scanned, after⟩ := List.mem_filter.mp listed
    have reached := List.mem_of_mem_take scanned
    have before := List.mem_takeWhile_imp (p := fun e : IndexEntry => e.interval.start < window.stop)
      reached
    exact ⟨(List.takeWhile_sublist _).subset reached, of_decide_eq_true before,
      of_decide_eq_true after⟩

theorem nodup_walk {listing : List IndexEntry} (single : listing.Nodup)
    (window : Interval) (outputLimit scanLimit : Nat) :
    (walk listing window outputLimit scanLimit).entries.Nodup := by
  unfold walk
  split
  · exact List.nodup_nil
  · refine (List.perm_insertionSort _ _).nodup_iff.mpr ?_
    refine List.Nodup.sublist (List.take_sublist _ _) ?_
    exact (List.Nodup.sublist ((List.take_sublist _ _).trans (List.takeWhile_sublist _)) single).filter _

/-- The state of a resource, a new one if the index has none. -/
def stateOf (x : CapacityIndex) (n : ResourceName) : ResourceState := x.resources[n]?.getD {}

theorem exact_stateOf {x : CapacityIndex} (h : x.Exact) (n : ResourceName) :
    (x.stateOf n).Stores (x.entriesOn n) := by
  unfold stateOf entriesOn
  cases there : x.resources[n]? with
  | none => exact ResourceState.exact_empty
  | some s => exact h n s there

/-- The peaks of exact trees are those of the entries. -/
theorem peaks_perm {x y : CapacityIndex} (hx : x.Exact) (hy : y.Exact) {n : ResourceName}
    (perm : (x.entriesOn n).Perm (y.entriesOn n)) (window : Interval) :
    x.peakCommitted n window = y.peakCommitted n window ∧
      x.peakHolds n window = y.peakHolds n window ∧
      x.peakCombined n window = y.peakCombined n window := by
  have read : ∀ x : CapacityIndex, x.peakCommitted n window = (stateOf x n).committed.peak window ∧
      x.peakHolds n window = (stateOf x n).holds.peak window ∧
      x.peakCombined n window = (stateOf x n).combined.peak window := by
    intro x
    unfold peakCommitted peakHolds peakCombined stateOf
    cases x.resources[n]? with
    | none => simp [IntervalIndex.peak_new]
    | some s => exact ⟨rfl, rfl, rfl⟩
  have left := exact_stateOf hx n
  have right := exact_stateOf hy n
  rw [(read x).1, (read x).2.1, (read x).2.2, (read y).1, (read y).2.1, (read y).2.2]
  exact ⟨left.committed.peak_eq right.committed ((perm.filter _).map _) window,
    left.holds.peak_eq right.holds ((perm.filter _).map _) window,
    left.combined.peak_eq right.combined (perm.map _) window⟩

/-- A built index and another one list the same entries in the same order. -/
structure Alike (x y : CapacityIndex) : Prop where
  left : x.Wf ∧ x.Exact
  right : y.Wf ∧ y.Exact
  listed : ∀ n, x.entriesOn n = y.entriesOn n

namespace Alike

variable {x y : CapacityIndex}

theorem has_iff (h : Alike x y) (e : IndexEntry) : x.Has e ↔ y.Has e := by
  have listed : e ∈ x.entriesOn e.resource ↔ e ∈ y.entriesOn e.resource := by rw [h.listed]
  rw [mem_entriesOn h.left.1, mem_entriesOn h.right.1] at listed
  simpa using listed

theorem entries_eq (h : Alike x y) : x.entries = y.entries := by
  have only : ∀ {x y : CapacityIndex}, x.Wf → y.Wf → (∀ e, x.Has e → y.Has e) →
      ∀ (i : EntryIdentity) (t : Timestamp), x.entries[i]? = some t → y.entries[i]? = some t := by
    intro x y hx hy sub i t found
    obtain ⟨e, has, rfl⟩ := hx.placed i t found
    rw [hx.keyed e has] at found
    rw [hy.keyed e (sub e has), found]
  refine Map.ext_get fun i => ?_
  cases found : x.entries[i]? with
  | some t =>
    exact (only h.left.1 h.right.1 (fun e => (h.has_iff e).mp) i t found).symm
  | none =>
    cases other : y.entries[i]? with
    | none => rfl
    | some t =>
      rw [only h.right.1 h.left.1 (fun e => (h.has_iff e).mpr) i t other] at found
      cases found

theorem overlapping (h : Alike x y) (n : ResourceName) (window : Interval)
    (outputLimit scanLimit : Nat) :
    x.overlapping n window outputLimit scanLimit =
      y.overlapping n window outputLimit scanLimit := by
  rw [overlapping_eq, overlapping_eq, h.listed]

theorem findAll (h : Alike x y) (kind : HolderKind) (id : Identity128) :
    x.findAll kind id = y.findAll kind id := by
  have found : ∀ (x : CapacityIndex) (n : ResourceName) (p : IndexEntry → Bool),
      (do let state ← x.resources[n]?; state.byStart.find? p) = (x.entriesOn n).find? p := by
    intro x n p
    unfold entriesOn
    cases x.resources[n]? <;> rfl
  unfold CapacityIndex.findAll CapacityIndex.keysOf
  simp only [found, h.entries_eq, h.listed]

/-- The peaks of the three trees. -/
theorem peaks (h : Alike x y) (n : ResourceName) (window : Interval) :
    x.peakCommitted n window = y.peakCommitted n window ∧
      x.peakHolds n window = y.peakHolds n window ∧
      x.peakCombined n window = y.peakCombined n window :=
  peaks_perm h.left.2 h.right.2 (h.listed n ▸ List.Perm.refl _) window

end Alike

/-! ## Removing an entry -/

theorem entriesOn_dropIfEmpty {m : Map ResourceName ResourceState} (h : FiledIn m)
    (k n : ResourceName) :
    ((dropIfEmpty m k)[n]?.map ResourceState.byStart).getD [] =
      (m[n]?.map ResourceState.byStart).getD [] := by
  unfold CapacityIndex.dropIfEmpty
  split
  · rename_i s there
    split
    · rename_i none
      rw [Map.get_erase]
      split
      · rename_i here
        subst here
        have empty : s.byStart = [] := by
          rw [(h _ _ there).counted] at none
          exact List.length_eq_zero_iff.mp none
        simp [there, empty]
      · rfl
    · rfl
  · rfl

/-- What `erase` leaves of the listing of its resource, or why it fails. -/
def pick (kind : HolderKind) (id : Identity128) (generation : Counter) (listing : List IndexEntry) :
    Option Timestamp → Result (List IndexEntry)
  | none => throw (makeError .notFound "index entry does not exist")
  | some start =>
    let named : IndexEntry → Bool := fun e =>
      e.interval.start = start && e.id = id && e.holderGeneration = generation && e.kind = kind
    if (listing.find? named).isSome then pure (listing.eraseP named)
    else throw (makeError .internal "index entry vanished from the interval map")

/-- `erase` changes one listing, or fails. -/
theorem erase_lists {x : CapacityIndex} (h : x.Wf) (kind : HolderKind) (id : Identity128)
    (generation : Counter) (resource : ResourceName) :
    Op.Ensures (erase kind id generation resource) x fun r y =>
      match pick kind id generation (x.entriesOn resource)
          x.entries[(⟨kind, id, resource⟩ : EntryIdentity)]? with
      | .error e => r = .error e ∧ ∀ n, y.entriesOn n = x.entriesOn n
      | .ok rest => r = .ok () ∧
          ∀ n, y.entriesOn n = if n = resource then rest else x.entriesOn n := by
  unfold CapacityIndex.erase
  apply Op.ensures_get_bind
  dsimp only
  cases key : x.entries[(⟨kind, id, resource⟩ : EntryIdentity)]? with
  | none => exact Op.ensures_throw ⟨rfl, fun _ => rfl⟩
  | some start =>
    obtain ⟨e, has, same⟩ := h.placed _ _ key
    obtain ⟨s, there, -⟩ := has
    obtain ⟨-, -, rfl⟩ : e.kind = kind ∧ e.id = id ∧ e.resource = resource := by
      simpa [IndexEntry.identity] using same
    have listed : x.entriesOn e.resource = s.byStart := by simp [entriesOn, there]
    simp only [there, listed, pick]
    split
    · rename_i none
      have missing : (s.byStart.find? fun f => f.interval.start = start && f.id = id &&
          f.holderGeneration = generation && f.kind = kind) = Option.none := by
        unfold ResourceState.removeFirst at none
        split at none
        · assumption
        · cases none
      rw [missing]
      exact Op.ensures_throw ⟨rfl, fun _ => rfl⟩
    · rename_i t removed
      have found : (s.byStart.find? fun f => f.interval.start = start && f.id = id &&
          f.holderGeneration = generation && f.kind = kind).isSome = true := by
        unfold ResourceState.removeFirst at removed
        split at removed
        · cases removed
        · rename_i there
          simp [there]
      have filed : FiledIn (x.resources.insert e.resource t) :=
        h.filed.insert ((h.filed _ _ there).of_removeFirst removed)
      rw [if_pos found]
      refine Op.ensures_set ⟨rfl, fun n => ?_⟩
      refine (entriesOn_dropIfEmpty filed e.resource n).trans ?_
      rw [Map.get_insert, ← ResourceState.byStart_removeFirst removed]
      split <;> rfl

/-- Removing an entry keeps indexes alike. -/
theorem twin_erase {x y : CapacityIndex} (h : Alike x y) (kind : HolderKind) (id : Identity128)
    (generation : Counter) (resource : ResourceName) :
    Op.Twin Alike (erase kind id generation resource) (erase kind id generation resource) x y := by
  have left := erase_lists h.left.1 kind id generation resource
  have right := erase_lists h.right.1 kind id generation resource
  have keeps : ∀ {z : CapacityIndex}, z.Wf ∧ z.Exact →
      Op.Ensures (erase kind id generation resource) z fun _ z' => z'.Wf ∧ z'.Exact :=
    fun h => ⟨wf_erase h.1 kind id generation resource, exact_erase h.2 kind id generation resource⟩
  unfold Op.Ensures at left right
  rw [← h.listed resource, ← h.entries_eq] at right
  cases picked : pick kind id generation (x.entriesOn resource)
      x.entries[(⟨kind, id, resource⟩ : EntryIdentity)]? with
  | error e =>
    rw [picked] at left right
    refine ⟨left.1.trans right.1.symm, keeps h.left, keeps h.right, fun n => ?_⟩
    exact (left.2 n).trans ((h.listed n).trans (right.2 n).symm)
  | ok rest =>
    rw [picked] at left right
    refine ⟨left.1.trans right.1.symm, keeps h.left, keeps h.right, fun n => ?_⟩
    rw [left.2, right.2, h.listed]

end CapacityIndex

end Brf
