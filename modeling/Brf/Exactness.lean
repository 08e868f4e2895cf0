import Brf.Occupancy

/-!
# The trees of the capacity index are exact

The three trees of every resource against the entries of the index.

* `ResourceState.Stores` and `Exact`: the combined tree stores the sum of the entries, and the other
  two those of the reservations and of the holds. `CapacityIndex.load` is the sum of all of them.
* `CapacityIndex.Call` is a call that changes an index, and `Built` says that an index is the result
  of calls under which no sum reached `2 ^ 62`.

Results: `exact_insert`, `exact_erase`, `exact_eraseAll`, and `Built.exact`.
-/

namespace Brf

open Brf.Lib

/-- What an entry occupies. -/
def IndexEntry.usage (e : IndexEntry) : Usage := (e.interval, e.amount)

/-! ## The trees of a resource -/

/-- The first element that a predicate picks, and the rest. -/
theorem eraseP_perm {α : Type} {q : α → Bool} {x : α} {xs : List α} (found : xs.find? q = some x) :
    xs.Perm (x :: xs.eraseP q) := by
  induction xs with
  | nil => exact absurd found (by simp)
  | cons y ys ih =>
    by_cases hy : q y = true
    · rw [List.find?_cons_of_pos hy] at found
      rw [← Option.some.inj found, List.eraseP_cons_of_pos hy]
    · rw [List.find?_cons_of_neg hy] at found
      rw [List.eraseP_cons_of_neg hy]
      exact ((ih found).cons y).trans (List.Perm.swap x y _)

namespace ResourceState

/-- The trees store the sum of `es`: the combined tree that of all, and each of the other two that
of its kind. -/
structure Stores (s : ResourceState) (es : List IndexEntry) : Prop where
  committed : s.committed.Tracks ((es.filter fun e => e.kind = .reservation).map IndexEntry.usage)
  holds : s.holds.Tracks ((es.filter fun e => e.kind = .hold).map IndexEntry.usage)
  combined : s.combined.Tracks (es.map IndexEntry.usage)

/-- The trees store the sum of the entries. -/
def Exact (s : ResourceState) : Prop := s.Stores s.byStart

theorem exact_empty : Exact {} :=
  ⟨IntervalIndex.tracks_new, IntervalIndex.tracks_new, IntervalIndex.tracks_new⟩

variable {s t : ResourceState} {e : IndexEntry} {es fs : List IndexEntry}

theorem Stores.perm (h : s.Stores es) (perm : es.Perm fs) : s.Stores fs :=
  ⟨h.committed.perm ((perm.filter _).map _), h.holds.perm ((perm.filter _).map _),
    h.combined.perm (perm.map _)⟩

/-- The trees of the entry's kind and the combined tree gain an entry of the timeline; no sum
reaches the bound of the trees. -/
theorem Stores.add (h : s.Stores es) (valid : e.usage.Valid)
    (fit : ∀ t, loadAt ((e :: es).map IndexEntry.usage) t ≤ IntervalIndex.maxLoad) :
    (s.addTrees e).Stores (e :: es) := by
  have all : ∀ u ∈ (e :: es).map IndexEntry.usage, Usage.Valid u := by
    intro u hu
    rcases List.mem_cons.mp hu with rfl | hu
    · exact valid
    · exact h.combined.valid u hu
  have part : ∀ p t, loadAt (((e :: es).filter p).map IndexEntry.usage) t ≤
      IntervalIndex.maxLoad := fun p t =>
    (loadAt_sublist (List.filter_sublist.map _) all t).trans (fit t)
  have combined := IntervalIndex.tracks_add h.combined valid fit
  unfold addTrees
  cases kind : e.kind with
  | reservation =>
    have more := part fun e => e.kind = .reservation
    rw [List.filter_cons_of_pos (by simp [kind])] at more
    refine ⟨?_, ?_, combined⟩
    · rw [List.filter_cons_of_pos (by simp [kind])]
      exact IntervalIndex.tracks_add h.committed valid more
    · rw [List.filter_cons_of_neg (by simp [kind])]
      exact h.holds
  | hold =>
    have more := part fun e => e.kind = .hold
    rw [List.filter_cons_of_pos (by simp [kind])] at more
    refine ⟨?_, ?_, combined⟩
    · rw [List.filter_cons_of_neg (by simp [kind])]
      exact h.committed
    · rw [List.filter_cons_of_pos (by simp [kind])]
      exact IntervalIndex.tracks_add h.holds valid more

/-- The trees of the entry's kind and the combined tree lose an entry. -/
theorem Stores.remove (h : s.Stores (e :: es)) : (s.removeTrees e).Stores es := by
  obtain ⟨committed, holds, combined⟩ := h
  have combined := IntervalIndex.tracks_remove_head combined
  unfold removeTrees
  cases kind : e.kind with
  | reservation =>
    rw [List.filter_cons_of_pos (by simp [kind])] at committed
    rw [List.filter_cons_of_neg (by simp [kind])] at holds
    exact ⟨IntervalIndex.tracks_remove_head committed, holds, combined⟩
  | hold =>
    rw [List.filter_cons_of_neg (by simp [kind])] at committed
    rw [List.filter_cons_of_pos (by simp [kind])] at holds
    exact ⟨committed, IntervalIndex.tracks_remove_head holds, combined⟩

theorem Stores.removeAll (h : s.Stores (es ++ fs)) : (es.foldl removeTrees s).Stores fs := by
  induction es generalizing s with
  | nil => exact h
  | cons e es ih => exact ih h.remove

theorem Exact.insert (h : s.Exact) (valid : e.usage.Valid)
    (fit : ∀ t, loadAt ((e :: s.byStart).map IndexEntry.usage) t ≤ IntervalIndex.maxLoad) :
    (s.insert e).Exact := by
  have stored := (Stores.add h valid fit).perm (emplace_perm e s.byStart).symm
  have entries : (s.insert e).byStart = emplace e s.byStart :=
    congrArg (emplace e) (addTrees_byStart s e).1
  unfold Exact
  rw [entries]
  exact ⟨stored.committed, stored.holds, stored.combined⟩

theorem Exact.removeFirst (h : s.Exact) {q : IndexEntry → Bool}
    (removed : s.removeFirst q = some t) : t.Exact := by
  unfold ResourceState.removeFirst at removed
  cases found : s.byStart.find? q with
  | none =>
    rw [found] at removed
    exact absurd removed (by simp)
  | some e =>
    rw [found] at removed
    obtain rfl := Option.some.inj removed
    have stored := (Stores.perm h (eraseP_perm found)).remove
    have entries : (s.removeTrees e).byStart.eraseP q = s.byStart.eraseP q :=
      congrArg (List.eraseP q) (removeTrees_byStart s e).1
    unfold Exact
    dsimp only
    rw [entries]
    exact ⟨stored.committed, stored.holds, stored.combined⟩

theorem Exact.removeEvery (h : s.Exact) (p : IndexEntry → Bool) : (s.removeEvery p).Exact := by
  have stored := (Stores.perm h (List.filter_append_perm p s.byStart).symm).removeAll
  exact ⟨stored.committed, stored.holds, stored.combined⟩

end ResourceState

namespace CapacityIndex

/-- The entries of a resource, in the order of the index. -/
def entriesOn (x : CapacityIndex) (n : ResourceName) : List IndexEntry :=
  (x.resources[n]?.map ResourceState.byStart).getD []

/-- What the entries of a resource, reservations and holds, occupy of an instant. -/
def load (x : CapacityIndex) (n : ResourceName) (t : Int) : Int :=
  loadAt ((x.entriesOn n).map IndexEntry.usage) t

/-- The trees of every resource store the sum of its entries. -/
def ExactIn (m : Map ResourceName ResourceState) : Prop :=
  ∀ (n : ResourceName) (s : ResourceState), m[n]? = some s → s.Exact

/-- The trees of the index store the sums of its entries. -/
abbrev Exact (x : CapacityIndex) : Prop := ExactIn x.resources

theorem exact_new : Exact {} := fun _ _ no => absurd no (by simp)

/-- The combined peak is the largest load of the window. -/
theorem Exact.peakCombined {x : CapacityIndex} (h : x.Exact) (n : ResourceName) {window : Interval}
    (nonempty : window.start.val < window.stop.val) :
    IsPeakLoad ((x.entriesOn n).map IndexEntry.usage) window (x.peakCombined n window).val := by
  unfold CapacityIndex.peakCombined entriesOn
  cases there : x.resources[n]? with
  | none => exact ⟨fun _ _ _ => le_rfl, _, le_rfl, nonempty, rfl⟩
  | some s => exact IntervalIndex.peak_exact (h n s there).combined nonempty

/-- No peak is negative. -/
theorem Exact.peakCombined_nonneg {x : CapacityIndex} (h : x.Exact) (n : ResourceName)
    (window : Interval) : 0 ≤ (x.peakCombined n window).val := by
  unfold CapacityIndex.peakCombined
  cases there : x.resources[n]? with
  | none => exact le_rfl
  | some s =>
    by_cases nonempty : window.start.val < window.stop.val
    · exact ((h n s there).combined.peak_range
        (IntervalIndex.peak_exact (h n s there).combined nonempty)).1
    · have order : ¬ window.start < window.stop := nonempty
      simp [IntervalIndex.peak, Interval.empty, order]

/-! ## The calls that change an index -/

/-- Every resource has the property. -/
def EveryIn (I : ResourceState → Prop) (m : Map ResourceName ResourceState) : Prop :=
  ∀ (n : ResourceName) (s : ResourceState), m[n]? = some s → I s

section Every

variable {I : ResourceState → Prop} {m : Map ResourceName ResourceState}

theorem EveryIn.insert (h : EveryIn I m) {n : ResourceName} {t : ResourceState} (ht : I t) :
    EveryIn I (m.insert n t) := by
  intro k s hk
  rw [Map.get_insert] at hk
  split at hk
  · obtain rfl := Option.some.inj hk
    exact ht
  · exact h k s hk

theorem EveryIn.dropIfEmpty (h : EveryIn I m) (n : ResourceName) :
    EveryIn I (dropIfEmpty m n) := by
  unfold CapacityIndex.dropIfEmpty
  split
  · split
    · intro k s hk
      rw [Map.get_erase] at hk
      split at hk
      · exact absurd hk (by simp)
      · exact h k s hk
    · exact h
  · exact h

/-- A fold whose steps keep the property of every resource keeps it. -/
theorem everyIn_foldl {α β : Type} (view : β → Map ResourceName ResourceState) {f : β → α → β}
    (step : ∀ b a, EveryIn I (view b) → EveryIn I (view (f b a))) (as : List α) {b : β}
    (h : EveryIn I (view b)) : EveryIn I (view (as.foldl f b)) := by
  induction as generalizing b with
  | nil => exact h
  | cons a as ih => exact ih (step b a h)

/-- `insert` keeps a property that the resource of the entry keeps. -/
theorem every_insert {x : CapacityIndex} (h : EveryIn I x.resources) {e : IndexEntry}
    (entered : I ((x.resources[e.resource]?.getD {}).insert e)) :
    Op.Ensures (insert e) x fun _ y => EveryIn I y.resources := by
  unfold CapacityIndex.insert
  refine Op.ensures_refuseIf_bind (fun _ => ?_) fun _ => h
  refine Op.ensures_refuseIf_bind (fun _ => ?_) fun _ => h
  refine Op.ensures_refuseIf_bind (fun _ => ?_) fun _ => h
  apply Op.ensures_get_bind
  refine Op.ensures_refuseIf_bind (fun _ => ?_) fun _ => h
  exact Op.ensures_set (EveryIn.insert h entered)

section Removal

variable (removeFirst : ∀ {s t : ResourceState} {q : IndexEntry → Bool}, I s →
    s.removeFirst q = some t → I t)

include removeFirst

/-- `erase` keeps what removing one entry keeps. -/
theorem every_erase {x : CapacityIndex} (h : EveryIn I x.resources) (kind : HolderKind)
    (id : Identity128) (generation : Counter) (resource : ResourceName) :
    Op.Ensures (erase kind id generation resource) x fun _ y => EveryIn I y.resources := by
  unfold CapacityIndex.erase
  apply Op.ensures_get_bind
  dsimp only
  split
  · exact Op.ensures_throw h
  · split
    · exact Op.ensures_throw h
    · rename_i s there
      split
      · exact Op.ensures_throw h
      · rename_i t removed
        exact Op.ensures_set (EveryIn.dropIfEmpty
          (EveryIn.insert h (removeFirst (h _ _ there) removed)) _)

theorem EveryIn.eraseKeyed {kind : HolderKind} {id : Identity128}
    {acc : Map ResourceName ResourceState × Nat} (h : EveryIn I acc.1)
    (key : EntryIdentity × Timestamp) : EveryIn I (eraseKeyed kind id acc key).1 := by
  unfold CapacityIndex.eraseKeyed
  split
  · exact h
  · rename_i s there
    split
    · exact h
    · rename_i t removed
      exact h.insert (removeFirst (h _ _ there) removed)

variable (removeEvery : ∀ {s : ResourceState} (q : IndexEntry → Bool), I s → I (s.removeEvery q))

include removeEvery

/-- `erase_all` keeps what removing one or many entries keeps. -/
theorem every_eraseAll {x : CapacityIndex} (h : EveryIn I x.resources) (kind : HolderKind)
    (id : Identity128) :
    Op.Ensures (eraseAll kind id) x fun _ y => EveryIn I y.resources := by
  have sweep : ∀ (acc : Map ResourceName ResourceState × Nat) (name : ResourceName),
      EveryIn I acc.1 → EveryIn I (sweep kind id acc name).1 := by
    intro acc name h
    unfold CapacityIndex.sweep
    split
    · exact h
    · rename_i s there
      exact h.insert (removeEvery _ (h _ _ there))
  unfold CapacityIndex.eraseAll
  apply Op.ensures_get_bind
  have keyed : EveryIn I ((x.keysOf kind id).foldl (CapacityIndex.eraseKeyed kind id)
      (x.resources, 0)).1 :=
    everyIn_foldl Prod.fst (fun _ key every => every.eraseKeyed removeFirst key) _ h
  have swept : EveryIn I ((((x.keysOf kind id).filter fun k =>
      x.resources[k.1.resource]?.isSome).map (·.1.resource)).foldl (CapacityIndex.sweep kind id)
        ((x.keysOf kind id).foldl (CapacityIndex.eraseKeyed kind id) (x.resources, 0))).1 :=
    everyIn_foldl Prod.fst sweep _ keyed
  apply Op.ensures_set_bind
  refine Op.ensures_refuseIf_bind (fun _ => ?_) fun _ => swept
  exact Op.ensures_set (everyIn_foldl (fun m => m) (fun _ name h => EveryIn.dropIfEmpty h name) _
    swept)

end Removal

end Every

/-- A resource stays exact with an entry of the timeline, if no sum reaches the bound of the trees. -/
theorem Exact.entered {x : CapacityIndex} (h : x.Exact) {e : IndexEntry} (valid : e.usage.Valid)
    (fit : ∀ t, loadAt ((e :: x.entriesOn e.resource).map IndexEntry.usage) t ≤
      IntervalIndex.maxLoad) : ((x.resources[e.resource]?.getD {}).insert e).Exact := by
  unfold entriesOn at fit
  cases there : x.resources[e.resource]? with
  | none =>
    rw [there] at fit
    exact ResourceState.exact_empty.insert valid fit
  | some s =>
    rw [there] at fit
    exact (h _ _ there).insert valid fit

/-- `insert` keeps the trees exact, if the entry lies on the timeline and no sum reaches the bound
of the trees. -/
theorem exact_insert {x : CapacityIndex} (h : x.Exact) {e : IndexEntry} (valid : e.usage.Valid)
    (fit : ∀ t, loadAt ((e :: x.entriesOn e.resource).map IndexEntry.usage) t ≤
      IntervalIndex.maxLoad) :
    Op.Ensures (insert e) x fun _ y => y.Exact :=
  every_insert h (h.entered valid fit)

/-- `erase` keeps the trees exact. -/
theorem exact_erase {x : CapacityIndex} (h : x.Exact) (kind : HolderKind) (id : Identity128)
    (generation : Counter) (resource : ResourceName) :
    Op.Ensures (erase kind id generation resource) x fun _ y => y.Exact :=
  every_erase (fun h removed => h.removeFirst removed) h kind id generation resource

/-- `erase_all` keeps the trees exact. -/
theorem exact_eraseAll {x : CapacityIndex} (h : x.Exact) (kind : HolderKind) (id : Identity128) :
    Op.Ensures (eraseAll kind id) x fun _ y => y.Exact :=
  every_eraseAll (fun h removed => h.removeFirst removed) (fun q h => h.removeEvery q) h kind id

/-- A call that changes an index; `replace_all` is made of these. -/
inductive Call where
  | insert (e : IndexEntry)
  | erase (kind : HolderKind) (id : Identity128) (generation : Counter) (resource : ResourceName)
  | eraseAll (kind : HolderKind) (id : Identity128)

/-- The method of a call. -/
def Call.method : Call → Method Unit
  | .insert e => CapacityIndex.insert e
  | .erase kind id generation resource => CapacityIndex.erase kind id generation resource
  | .eraseAll kind id => CapacityIndex.eraseAll kind id

/-- The index executes a call. -/
def step (x : CapacityIndex) (call : Call) : CapacityIndex := (call.method.exec x).2

/-- What is inserted is a positive amount on an interval of the timeline, and no sum reaches
`2 ^ 62`. -/
def Allowed (x : CapacityIndex) : Call → Prop
  | .insert e => e.usage.Valid ∧
      ∀ t, loadAt ((e :: x.entriesOn e.resource).map IndexEntry.usage) t < 2 ^ 62
  | .erase .. => True
  | .eraseAll .. => True

/-- The index is the result of calls under which no sum reached `2 ^ 62`. -/
def Built (x : CapacityIndex) : Prop :=
  ∃ calls, Along step Allowed {} calls ∧ x = after step {} calls

theorem exact_step (x : CapacityIndex) (call : Call) (h : x.Exact) (allowed : Allowed x call) :
    (step x call).Exact := by
  cases call with
  | insert e =>
    obtain ⟨valid, fit⟩ := allowed
    refine exact_insert h valid fun t => ?_
    have below := fit t
    have top : IntervalIndex.maxLoad + 1 = 2 ^ 62 := by decide
    omega
  | erase kind id generation resource => exact exact_erase h kind id generation resource
  | eraseAll kind id => exact exact_eraseAll h kind id

/-- Any sequence of calls keeps the trees exact, as long as no sum reaches `2 ^ 62`. -/
theorem Built.exact {x : CapacityIndex} (h : x.Built) : x.Exact := by
  obtain ⟨calls, allowed, rfl⟩ := h
  exact invariant_along step (I := Exact) exact_step exact_new allowed

end CapacityIndex

end Brf
