import Brf.Conflicts
import Brf.Query

/-!
# Timelines

What `query_timeline` answers: the instants of a window at which occupancy may change, each with the
committed and the held sum.

* `CapacityIndex.Draws` says what an answer should be: few points in order, exact sums, and, unless it
  is truncated, the whole step function.
* `CapacityIndex.changes` are the instants of a window at which entries start or end, and the start of
  the window. `boundaries_eq` says which of them the loop of the source collects: those of the first
  `maxPoints + 2` matches.

The source keeps one boundary more than it may report, because the last one is usually the end of the
window and is dropped; where it is not, a point too many is reported.

Results: `query_timeline_iff`.
-/

namespace Brf

open Brf.Lib

/-- The sums that a point carries. -/
def ChangePoint.sums (p : ChangePoint) : Int × Int := (p.committed.val, p.holds.val)

namespace CapacityIndex

/-! ## What a timeline should be -/

/-- What the entries of a kind occupy of an instant on a resource. -/
def loadOf (x : CapacityIndex) (kind : HolderKind) (n : ResourceName) (t : Timestamp) : Int :=
  loadAt (((x.entriesOn n).filter fun e => e.kind = kind).map IndexEntry.usage) t.val

/-- The committed and the held sum at an instant. -/
def sumsAt (x : CapacityIndex) (n : ResourceName) (t : Timestamp) : Int × Int :=
  (x.loadOf .reservation n t, x.loadOf .hold n t)

/-- The points are few, in order, inside the window, and exact; and unless the timeline is truncated,
they make up the sums of the whole window. -/
structure Draws (x : CapacityIndex) (n : ResourceName) (window : Interval) (maxPoints : Nat)
    (answer : Timeline) : Prop where
  few : answer.points.length ≤ maxPoints
  rising : answer.points.Pairwise fun p q => p.instant < q.instant
  inside : ∀ p ∈ answer.points, window.containsInstant p.instant = true
  exact : ∀ p ∈ answer.points, p.sums = x.sumsAt n p.instant
  steps : answer.truncated = false → ∀ t, window.containsInstant t = true →
    lastAt (0, 0) (answer.points.map fun p => (p.instant, p.sums)) t = x.sumsAt n t

/-! ## The instants of change -/

/-- The instants of the window at which an entry starts or ends, and the start of the window. -/
def changes (window : Interval) (es : List IndexEntry) : Finset Timestamp :=
  (window.start :: es.flatMap fun e => [e.interval.start, e.interval.stop]).toFinset.filter
    fun t => window.containsInstant t = true

/-- The matches that the loop of `timeline` looks at. -/
def considered (x : CapacityIndex) (n : ResourceName) (window : Interval) (maxPoints : Nat) :
    List IndexEntry :=
  (matching (x.entriesOn n) window).take (maxPoints + 2)

/-- The trees of the resource read the sums at an instant. -/
def ReadsAt (x : CapacityIndex) (n : ResourceName) (t : Timestamp) : Prop :=
  ∀ s, x.resources[n]? = some s → ((s.committed.at' t).val, (s.holds.at' t).val) = x.sumsAt n t

/-- The ends of an entry, clipped to the window. -/
def clip (window : Interval) (e : IndexEntry) : List Timestamp :=
  [if e.interval.start < window.start then window.start else e.interval.start,
    if window.stop < e.interval.stop then window.stop else e.interval.stop]

/-- **The loop** collects the ends of the first matches, as many as it has room for. -/
theorem boundaries_eq {window : Interval} {limit : Nat} {listing : List IndexEntry}
    (sorted : listing.Pairwise fun a b => a.interval.start ≤ b.interval.start) :
    ∀ {found : List Timestamp} {room : Nat}, found.length + 2 * (room + 1) = limit + 1 →
      boundaries window limit found listing =
        (found ++ ((matching listing window).take (room + 1)).flatMap (clip window),
          decide (room + 1 ≤ (matching listing window).length)) := by
  induction listing with
  | nil =>
    intro found room _
    simp [boundaries, matching]
  | cons e rest ih =>
    intro found room length
    obtain ⟨head, tail⟩ := List.pairwise_cons.mp sorted
    unfold boundaries
    by_cases before : e.interval.start < window.stop
    · rw [if_neg (not_not.mpr before)]
      by_cases after : window.start < e.interval.stop
      · have matched : matching (e :: rest) window = e :: matching rest window :=
          List.filter_cons_of_pos (by simp [before, after])
        rw [if_neg (not_le.mpr after), matched]
        dsimp only
        rw [show ∀ a b : Timestamp, (found ++ [a, b]).length = found.length + 2 from fun a b => by
          simp]
        cases room with
        | zero =>
          rw [if_pos (by omega)]
          simp [clip]
        | succ room =>
          rw [if_neg (by omega), @ih tail _ room (by simp; omega)]
          simp [clip]
      · have missed : matching (e :: rest) window = matching rest window :=
          List.filter_cons_of_neg (by simp [after])
        rw [if_pos (not_lt.mp after), missed]
        exact ih tail length
    · have none : matching (e :: rest) window = [] := by
        refine List.filter_eq_nil_iff.mpr fun f hf picked => ?_
        simp only [Bool.and_eq_true, decide_eq_true_eq] at picked
        rcases List.mem_cons.mp hf with rfl | hf
        · exact before picked.1
        · exact before ((head f hf).trans_lt picked.1)
      rw [if_pos before, none]
      simp

/-! ## The instants that are kept -/

theorem containsInstant_iff {window : Interval} {t : Timestamp} :
    window.containsInstant t = true ↔ window.start ≤ t ∧ t < window.stop := by
  simp [Interval.containsInstant]

/-- The ends of matches that lie in the window are the instants of change. -/
theorem mem_changes {window : Interval} {es : List IndexEntry}
    (nonempty : window.start < window.stop)
    (matched : ∀ e ∈ es, e.interval.start < window.stop ∧ window.start < e.interval.stop)
    {t : Timestamp} : t ∈ changes window es ↔
      t ∈ window.start :: es.flatMap (clip window) ∧ t < window.stop := by
  simp only [changes, Finset.mem_filter, List.mem_toFinset, containsInstant_iff, List.mem_cons,
    List.mem_flatMap, List.not_mem_nil, or_false]
  constructor
  · rintro ⟨rfl | ⟨e, he, rfl | rfl⟩, since, before⟩
    · exact ⟨.inl rfl, before⟩
    · refine ⟨.inr ⟨e, he, ?_⟩, before⟩
      simp [clip, not_lt.mpr since]
    · refine ⟨.inr ⟨e, he, ?_⟩, before⟩
      simp [clip, not_lt.mpr before.le]
  · rintro ⟨rfl | ⟨e, he, clipped⟩, before⟩
    · exact ⟨.inl rfl, le_rfl, nonempty⟩
    · obtain ⟨starts, stops⟩ := matched e he
      simp only [clip, List.mem_cons, List.not_mem_nil, or_false] at clipped
      rcases clipped with first | second
      · by_cases early : e.interval.start < window.start
        · rw [if_pos early] at first
          exact ⟨.inl first, first ▸ le_rfl, before⟩
        · rw [if_neg early] at first
          exact ⟨.inr ⟨e, he, .inl first⟩, first ▸ not_lt.mp early, before⟩
      · by_cases late : window.stop < e.interval.stop
        · rw [if_pos late] at second
          exact absurd before (second ▸ lt_irrefl _)
        · rw [if_neg late] at second
          exact ⟨.inr ⟨e, he, .inr second⟩, second ▸ stops.le, before⟩

/-- The boundaries of a timeline, in order. -/
def instants (x : CapacityIndex) (n : ResourceName) (window : Interval) (maxPoints : Nat) :
    List Timestamp :=
  ascending (window.start :: (x.considered n window maxPoints).flatMap (clip window))

variable {x : CapacityIndex} {n : ResourceName} {window : Interval} {maxPoints : Nat}

theorem matched_considered {e : IndexEntry} (he : e ∈ x.considered n window maxPoints) :
    e.interval.start < window.stop ∧ window.start < e.interval.stop := by
  have picked := (List.mem_filter.mp (List.mem_of_mem_take he)).2
  simpa using picked

theorem instants_bounds (nonempty : window.start < window.stop) {t : Timestamp}
    (ht : t ∈ x.instants n window maxPoints) : window.start ≤ t ∧ t ≤ window.stop := by
  simp only [instants, mem_ascending, List.mem_cons, List.mem_flatMap] at ht
  rcases ht with rfl | ⟨e, he, clipped⟩
  · exact ⟨le_rfl, nonempty.le⟩
  · obtain ⟨starts, stops⟩ := matched_considered he
    simp only [clip, List.mem_cons, List.not_mem_nil, or_false] at clipped
    rcases clipped with rfl | rfl
    · split
      · exact ⟨le_rfl, nonempty.le⟩
      · rename_i late
        exact ⟨not_lt.mp late, starts.le⟩
    · split
      · exact ⟨nonempty.le, le_rfl⟩
      · rename_i early
        exact ⟨stops.le, not_lt.mp early⟩

/-- The instants of change, in order. -/
def drawn (x : CapacityIndex) (n : ResourceName) (window : Interval) (maxPoints : Nat) :
    List Timestamp :=
  (x.instants n window maxPoints).filter fun t => t < window.stop

theorem drawn_pairwise : (x.drawn n window maxPoints).Pairwise fun s t => s < t :=
  (ascending_pairwise _).filter _

theorem mem_drawn (nonempty : window.start < window.stop) {t : Timestamp} :
    t ∈ x.drawn n window maxPoints ↔ t ∈ changes window (x.considered n window maxPoints) := by
  rw [mem_changes nonempty fun e he => matched_considered he]
  simp [drawn, instants]

theorem drawn_length (nonempty : window.start < window.stop) :
    (x.drawn n window maxPoints).length =
      (changes window (x.considered n window maxPoints)).card := by
  have once : (x.drawn n window maxPoints).Nodup := drawn_pairwise.imp fun less => less.ne
  rw [← List.toFinset_card_of_nodup once]
  congr 1
  ext t
  rw [List.mem_toFinset, mem_drawn nonempty]

/-- All boundaries but the end of the window are drawn. -/
theorem instants_length (nonempty : window.start < window.stop) :
    (x.instants n window maxPoints).length ≤ (x.drawn n window maxPoints).length + 1 := by
  have split := List.length_eq_length_filter_add (l := x.instants n window maxPoints)
    fun t => decide (t < window.stop)
  have rest : ((x.instants n window maxPoints).filter fun t => !decide (t < window.stop)).length ≤ 1 := by
    have once : ((x.instants n window maxPoints).filter
        fun t => !decide (t < window.stop)).Pairwise fun s t => s < t :=
      (ascending_pairwise _).filter _
    have only : ∀ t ∈ (x.instants n window maxPoints).filter fun t => !decide (t < window.stop),
        t = window.stop := fun t ht => by
      obtain ⟨mem, last⟩ := List.mem_filter.mp ht
      exact le_antisymm (instants_bounds nonempty mem).2 (by simpa using last)
    by_contra many
    generalize (x.instants n window maxPoints).filter (fun t => !decide (t < window.stop)) = ts at *
    match ts, many with
    | [], many => simp at many
    | [_], many => simp at many
    | s :: t :: _, _ =>
      have less := List.rel_of_pairwise_cons once List.mem_cons_self
      rw [only s List.mem_cons_self, only t (by simp)] at less
      exact lt_irrefl _ less
  unfold drawn
  omega

/-- **The timeline** of a resource with entries: the first boundaries without the end of the window. -/
theorem timeline_eq (formed : x.Formed) (nonempty : window.start < window.stop) {s : ResourceState}
    (there : x.resources[n]? = some s) : x.timeline n window maxPoints =
      { points := ((x.drawn n window maxPoints).take (maxPoints + 1)).map fun t =>
          ⟨t, s.committed.at' t, s.holds.at' t⟩
        truncated := maxPoints + 2 ≤ (matching (x.entriesOn n) window).length ||
          maxPoints + 1 < (x.instants n window maxPoints).length } := by
  have listed := formed.listed n
  have entries : x.entriesOn n = s.byStart := by
    unfold entriesOn
    rw [there]
    rfl
  rw [entries] at listed
  have order : window.empty = false := by simp [Interval.empty, nonempty]
  have collected := @boundaries_eq window ((maxPoints + 2) * 2) s.byStart listed [window.start]
    (maxPoints + 1) (by simp; omega)
  have same : ((window.start :: ((matching s.byStart window).take (maxPoints + 1 + 1)).flatMap
      (clip window)).insertionSort fun a b => a ≤ b).destutter (fun a b => a ≠ b) =
        x.instants n window maxPoints := by
    unfold instants considered ascending
    rw [entries]
    congr
  have inside : ∀ t ∈ (x.instants n window maxPoints).take (maxPoints + 1),
      (!(decide (t < window.start) || decide (window.stop ≤ t))) = decide (t < window.stop) := by
    intro t ht
    have since := (instants_bounds nonempty (List.mem_of_mem_take ht)).1
    rw [Bool.eq_iff_iff]
    simp [since]
  have cut : ((x.instants n window maxPoints).take (maxPoints + 1)).filter
      (fun t => decide (t < window.stop)) = (x.drawn n window maxPoints).take (maxPoints + 1) :=
    filter_take ((ascending_pairwise _).imp fun {a b} less => by
      simpa using fun before => less.trans before) _
  unfold timeline
  rw [there]
  dsimp only
  rw [if_neg (by simp [order]), collected]
  dsimp only
  rw [List.singleton_append, same, List.filter_congr inside, cut, entries]

/-! ## Between the instants of change -/

theorem loadAt_congr {us : List Usage} {s t : Int} (same : ∀ u ∈ us, Usage.at' u s = Usage.at' u t) :
    loadAt us s = loadAt us t := by
  unfold loadAt
  rw [List.map_congr_left same]

/-- Between two instants of change every entry covers all or nothing. -/
theorem covers_still {e : IndexEntry} (listed : e ∈ x.entriesOn n)
    (all : (matching (x.entriesOn n) window).length < maxPoints + 2) {s t : Timestamp}
    (hs : window.start ≤ s) (le : s ≤ t) (ht : t < window.stop)
    (still : ∀ c ∈ changes window (x.considered n window maxPoints), c ≤ s ∨ t < c) :
    Usage.at' e.usage s.val = Usage.at' e.usage t.val := by
  have same : (e.interval.start ≤ s ∧ s < e.interval.stop) ↔
      (e.interval.start ≤ t ∧ t < e.interval.stop) := by
    by_cases matched : e.interval.start < window.stop ∧ window.start < e.interval.stop
    · have looked : e ∈ x.considered n window maxPoints := by
        rw [considered, List.take_of_length_le all.le]
        exact List.mem_filter.mpr ⟨listed, by simpa using matched⟩
      have change : ∀ c : Timestamp, c = e.interval.start ∨ c = e.interval.stop →
          window.start ≤ c → c < window.stop → c ≤ s ∨ t < c := fun c ends since before => by
        refine still c (Finset.mem_filter.mpr ⟨?_, containsInstant_iff.mpr ⟨since, before⟩⟩)
        rw [List.mem_toFinset]
        refine List.mem_cons_of_mem _ (List.mem_flatMap.mpr ⟨e, looked, ?_⟩)
        simpa using ends
      constructor
      · rintro ⟨starts, before⟩
        refine ⟨starts.trans le, ?_⟩
        by_contra ended
        have ended := not_lt.mp ended
        rcases change _ (.inr rfl) (hs.trans before.le) (ended.trans_lt ht) with no | no
        · exact absurd (before.trans_le no) (lt_irrefl _)
        · exact absurd (no.trans_le ended) (lt_irrefl _)
      · rintro ⟨starts, before⟩
        refine ⟨?_, le.trans_lt before⟩
        by_contra later
        have later := not_le.mp later
        rcases change _ (.inl rfl) (hs.trans later.le) (starts.trans_lt ht) with no | no
        · exact absurd (later.trans_le no) (lt_irrefl _)
        · exact absurd (no.trans_le starts) (lt_irrefl _)
    · refine iff_of_false (fun covers => matched ?_) fun covers => matched ?_
      · exact ⟨covers.1.trans_lt (le.trans_lt ht), hs.trans_lt covers.2⟩
      · exact ⟨covers.1.trans_lt ht, (hs.trans le).trans_lt covers.2⟩
  simp only [I64.le_def, I64.lt_def] at same
  unfold Usage.at'
  change (if e.interval.start.val ≤ s.val ∧ s.val < e.interval.stop.val then _ else _) = _
  simp only [same]
  rfl

theorem sums_still (all : (matching (x.entriesOn n) window).length < maxPoints + 2) {s t : Timestamp}
    (hs : window.start ≤ s) (le : s ≤ t) (ht : t < window.stop)
    (still : ∀ c ∈ changes window (x.considered n window maxPoints), c ≤ s ∨ t < c) :
    x.sumsAt n s = x.sumsAt n t := by
  have same : ∀ kind, x.loadOf kind n s = x.loadOf kind n t := fun kind => by
    refine loadAt_congr fun u hu => ?_
    obtain ⟨e, he, rfl⟩ := List.mem_map.mp hu
    exact covers_still (List.mem_filter.mp he).1 all hs le ht still
  rw [sumsAt, same, same]
  rfl

/-! ## When a timeline is exact -/

/-- The condition of an exact timeline: few instants of change among the matches that are looked at,
and trees that read the sums there. -/
structure Drawable (x : CapacityIndex) (n : ResourceName) (window : Interval) (maxPoints : Nat) :
    Prop where
  few : (changes window (x.considered n window maxPoints)).card ≤ maxPoints
  reads : ∀ t ∈ changes window (x.considered n window maxPoints), x.ReadsAt n t

theorem draws_absent (pos : 1 ≤ maxPoints) (absent : x.resources[n]? = none) :
    x.Drawable n window maxPoints ∧
      x.Draws n window maxPoints (x.timeline n window maxPoints) := by
  have none : x.entriesOn n = [] := by simp [entriesOn, absent]
  have answer : x.timeline n window maxPoints = {} := by simp [timeline, absent]
  refine ⟨⟨?_, fun t _ s there => by simp [absent] at there⟩, ?_⟩
  · refine le_trans (Finset.card_filter_le _ _) ?_
    simpa [considered, none, matching] using pos
  · rw [answer]
    refine ⟨Nat.zero_le _, List.Pairwise.nil, by simp, by simp, fun _ t _ => ?_⟩
    simp [lastAt, sumsAt, loadOf, none]

theorem drawable_of_draws (formed : x.Formed) (nonempty : window.start < window.stop)
    {s : ResourceState} (there : x.resources[n]? = some s)
    (h : x.Draws n window maxPoints (x.timeline n window maxPoints)) :
    x.Drawable n window maxPoints := by
  have few := h.few
  have exact := h.exact
  rw [timeline_eq formed nonempty there] at few exact
  simp only [List.length_map, List.length_take] at few
  have short : (x.drawn n window maxPoints).length ≤ maxPoints := by omega
  refine ⟨by rwa [← drawn_length nonempty], fun t ht s' there' => ?_⟩
  obtain rfl : s = s' := Option.some.inj (there.symm.trans there')
  rw [← mem_drawn nonempty] at ht
  rw [List.take_of_length_le (by omega)] at exact
  exact exact _ (List.mem_map_of_mem ht)

theorem draws_of_drawable (formed : x.Formed) (nonempty : window.start < window.stop)
    {s : ResourceState} (there : x.resources[n]? = some s) (h : x.Drawable n window maxPoints) :
    x.Draws n window maxPoints (x.timeline n window maxPoints) := by
  have short : (x.drawn n window maxPoints).length ≤ maxPoints := by
    rw [drawn_length nonempty]
    exact h.few
  have reads : ∀ t ∈ x.drawn n window maxPoints,
      ((s.committed.at' t).val, (s.holds.at' t).val) = x.sumsAt n t := fun t ht =>
    h.reads t ((mem_drawn nonempty).mp ht) s there
  have within : ∀ t ∈ x.drawn n window maxPoints, window.start ≤ t ∧ t < window.stop := fun t ht => by
    have member := (mem_drawn nonempty).mp ht
    exact containsInstant_iff.mp (Finset.mem_filter.mp member).2
  rw [timeline_eq formed nonempty there, List.take_of_length_le (by omega)]
  refine ⟨by simpa using short, ?_, ?_, ?_, fun whole t ht => ?_⟩
  · exact List.pairwise_map.mpr drawn_pairwise
  · intro p hp
    obtain ⟨t, ht, rfl⟩ := List.mem_map.mp hp
    exact containsInstant_iff.mpr (within t ht)
  · intro p hp
    obtain ⟨t, ht, rfl⟩ := List.mem_map.mp hp
    exact reads t ht
  · simp only [Bool.or_eq_false_iff, decide_eq_false_iff_not, not_le, not_lt] at whole
    obtain ⟨since, before⟩ := containsInstant_iff.mp ht
    have samples : ((x.drawn n window maxPoints).map fun t =>
        (⟨t, s.committed.at' t, s.holds.at' t⟩ : ChangePoint)).map
          (fun p => (p.instant, p.sums)) =
        (x.drawn n window maxPoints).map fun t => (t, x.sumsAt n t) := by
      rw [List.map_map]
      exact List.map_congr_left fun t ht => Prod.ext rfl (reads t ht)
    have first : window.start ∈ x.drawn n window maxPoints := by
      rw [mem_drawn nonempty]
      simp [changes, containsInstant_iff, nonempty]
    rw [samples]
    refine lastAt_sampled drawn_pairwise first since (0, 0) fun u hu le apart => ?_
    exact sums_still whole.1 (within u hu).1 le before fun c hc =>
      apart c ((mem_drawn nonempty).mpr hc)

/-- **A timeline is exact** just when it can be drawn. -/
theorem draws_iff (formed : x.Formed) (nonempty : window.start < window.stop) (pos : 1 ≤ maxPoints) :
    x.Draws n window maxPoints (x.timeline n window maxPoints) ↔ x.Drawable n window maxPoints := by
  cases there : x.resources[n]? with
  | none =>
    obtain ⟨drawable, draws⟩ := @draws_absent x n window maxPoints pos there
    exact iff_of_true draws drawable
  | some s =>
    exact ⟨drawable_of_draws formed nonempty there, draws_of_drawable formed nonempty there⟩

end CapacityIndex

/-! ## The trees at an instant -/

theorem IntervalIndex.Tracks.at_exact {x : IntervalIndex} {us : List Usage} (h : x.Tracks us)
    {t : Timestamp} (nonneg : 0 ≤ t.val) (inside : t.val < maxTimestampNs) :
    (x.at' t).val = loadAt us t.val := by
  have next : (I64.wrap (t.val + 1)).val = t.val + 1 := by
    unfold maxTimestampNs at inside
    exact I64.val_wrap_of_range (by omega) (by omega)
  have peak := @queryTree_exact x us h ⟨t, I64.wrap (t.val + 1)⟩ (by
    change t.val < (I64.wrap (t.val + 1)).val
    omega)
  change IsPeakLoad us ⟨t, I64.wrap (t.val + 1)⟩ (queryTree x.tree t.val (I64.wrap (t.val + 1)).val) at peak
  rw [next] at peak
  obtain ⟨low, high⟩ := h.peak_range peak
  have small : maxLoad ≤ 9223372036854775807 := by decide
  have inside' : (decide (t.val < 0) || decide (maxTimestampNs ≤ t.val)) = false := by
    simp only [Bool.or_eq_false_iff, decide_eq_false_iff_not]
    omega
  unfold IntervalIndex.at'
  rw [if_neg (by simp [inside']), I64.val_wrap_of_range (by omega) (by omega)]
  obtain ⟨-, s, since, before, top⟩ := peak
  obtain rfl : s = t.val := by
    change t.val ≤ s at since
    change s < (I64.wrap (t.val + 1)).val at before
    omega
  exact top.symm

/-- The trees of a built index read the sums. -/
theorem CapacityIndex.Built.readsAt {x : CapacityIndex} (h : x.Built) (n : ResourceName)
    {t : Timestamp} (nonneg : 0 ≤ t.val) (inside : t.val < maxTimestampNs) : x.ReadsAt n t := by
  intro s there
  have stores := h.exact n s there
  have entries : x.entriesOn n = s.byStart := by
    unfold CapacityIndex.entriesOn
    rw [there]
    rfl
  rw [stores.committed.at_exact nonneg inside, stores.holds.at_exact nonneg inside]
  unfold CapacityIndex.sumsAt CapacityIndex.loadOf
  rw [entries]

/-! ## The index of a query -/

namespace CapacityIndex

/-- Calls lead from one index to the other. -/
def Reaches (x y : CapacityIndex) : Prop := ∃ calls, y = after step x calls

instance : IsPreorder CapacityIndex Reaches where
  refl _ := ⟨[], rfl⟩
  trans _ _ _ := fun ⟨as, ha⟩ ⟨bs, hb⟩ => ⟨as ++ bs, by rw [after_append, ← ha, hb]⟩

theorem Formed.reaches {x y : CapacityIndex} (h : x.Formed) (reaches : Reaches x y) : y.Formed := by
  obtain ⟨as, rfl⟩ := h
  obtain ⟨bs, rfl⟩ := reaches
  exact ⟨as ++ bs, (after_append step _ as bs).symm⟩

theorem within_call (call : Call) : Op.Within Reaches call.method := fun _ => ⟨[call], rfl⟩

theorem within_replaceAll (kind : HolderKind) (id : Identity128) (entries : List IndexEntry) :
    Op.Within Reaches (replaceAll kind id entries) := by
  unfold replaceAll
  refine Op.within_bind (Op.within_attempt (within_call (.eraseAll kind id))) fun r => ?_
  have inserts : Op.Within Reaches (Op.each insert entries) :=
    Op.within_each (fun e => within_call (.insert e)) entries
  split
  · exact inserts
  · exact Op.within_bind (Op.within_refuseIf _ _) fun _ => inserts

end CapacityIndex

namespace Coordinator

/-- The index changes by calls. -/
def Handles (c d : Coordinator) : Prop := c.index.Reaches d.index

instance : IsPreorder Coordinator Handles where
  refl c := Std.Refl.refl (r := CapacityIndex.Reaches) c.index
  trans a b c := IsTrans.trans (r := CapacityIndex.Reaches) a.index b.index c.index

theorem Handles.of_eq {c d : Coordinator} (same : d.index = c.index) : Handles c d := by
  unfold Handles
  rw [same]
  exact ⟨[], rfl⟩

theorem handles_onIndex {α : Type} {m : CapacityIndex.Method α}
    (h : Op.Within CapacityIndex.Reaches m) : Op.Within Handles (onIndex m) := fun c =>
  (ensures_onIndex (h c.index)).mono fun _ _ ⟨_, same, reaches⟩ => same ▸ reaches

theorem handles_append (record : DurableRecord) : Op.Within Handles (append record) :=
  Op.within_zoom (fun c store => (Handles.of_eq rfl : Handles c (c.withStore store))) _

theorem handles_indexErase (r : ReservationRecord) : Op.Within Handles (indexErase r) :=
  Op.within_get_bind fun c => by
    split
    · exact handles_onIndex (CapacityIndex.within_call (.eraseAll .reservation r.id)) c
    · exact Op.within_pure () c

theorem handles_syncIndex (r : ReservationRecord) : Op.Within Handles (syncIndex r) := by
  have insert : Op.Within Handles (indexInsert r) := by
    unfold indexInsert
    split
    · exact Op.within_pure ()
    · exact handles_onIndex (CapacityIndex.within_replaceAll _ _ _)
  refine Op.within_get_bind fun c => ?_
  dsimp only
  split
  · exact insert c
  · split
    · exact handles_indexErase r c
    · exact Op.within_pure () c

theorem handles_updateIndex (r : ReservationRecord) : Op.Within Handles (updateIndex r) :=
  Op.within_get_bind fun c => Op.within_bind (Op.within_when (handles_indexErase r))
    (fun _ => handles_syncIndex r) c

theorem handles_transition (r : ReservationRecord) (target : ReservationState) (now : Timestamp)
    (reason : Text) (context : RequestContext) (effect : Timestamp) :
    Op.Within Handles (transition r target now reason context effect) := by
  have counted : ∀ (c : Coordinator) (a b : ReservationState), (c.countState a b).index = c.index := by
    intro c a b
    unfold countState
    split
    · rfl
    · split <;> rfl
  have queued : ∀ (c : Coordinator) (moved : ReservationRecord), (c.syncQueues moved).index = c.index :=
    fun c moved => by
      unfold syncQueues
      dsimp only
      split <;> rfl
  refine Op.within_bind (handles_append _) fun sequence => Op.within_bind ?_ fun _ => Op.within_pure _
  refine Op.within_get_bind fun c => Op.within_bind ?_ (fun _ => Op.within_bind ?_ fun _ =>
    Op.within_bind ?_ fun _ => Op.within_pure _) c
  · exact Op.within_modify fun d => Handles.of_eq (counted d _ _)
  · split
    · exact handles_updateIndex _
    · exact handles_syncIndex _
  · exact Op.within_modify fun d => Handles.of_eq (queued d _)

theorem handles_reconcileTurn (now : Timestamp) (context : RequestContext) (key : ReservationKey) :
    Op.Within Handles (reconcileTurn now context key) := by
  have moved : ∀ (r : ReservationRecord) (target : ReservationState) (reason : Text),
      Op.Within Handles (discard (transition r target now reason context 0) : Method Unit) :=
    fun r target reason => Op.within_discard (handles_transition r target now reason context 0)
  have revoked : Op.Within Handles (modify countRevocation : Method Unit) :=
    Op.within_modify fun d => Handles.of_eq rfl
  have expired : Op.Within Handles (modify countExpiry : Method Unit) :=
    Op.within_modify fun d => Handles.of_eq rfl
  refine Op.within_get_bind fun c => ?_
  split
  · exact Op.within_pure () c
  · split
    · exact Op.within_bind (moved _ _ _) (fun _ => revoked) c
    · refine Op.within_bind ?_ (fun r => ?_) c
      · unfold activateDue
        split
        · exact Op.within_bind (handles_transition _ _ _ _ _ _) fun _ => Op.within_pure _
        · exact Op.within_pure _
      · unfold endDue
        split
        · split
          · exact Op.within_bind (moved _ _ _) fun _ => revoked
          · exact Op.within_bind (moved _ _ _) fun _ => expired
        · exact Op.within_pure ()

theorem handles_releaseHold (now : Timestamp) (id : HoldId) (reason : Text) :
    Op.Within Handles (releaseHold now id reason) := by
  refine Op.within_get_bind fun c => ?_
  split
  · exact Op.within_throw _ c
  · split
    · exact Op.within_pure () c
    · refine Op.within_bind (R := Handles) (Op.within_modify ?_) (fun _ => ?_) c
      · exact fun d => Handles.of_eq rfl
      refine Op.within_get_bind fun d => ?_
      split
      · exact Op.within_discard (Op.within_attempt (handles_onIndex
          (CapacityIndex.within_call (.eraseAll .hold id)))) d
      · exact Op.within_pure () d

/-- **A reconciliation** changes the index by calls. -/
theorem handles_reconcile (now : Timestamp) : Op.Within Handles (reconcile now) :=
  Op.within_get_bind fun c => Op.within_bind (Op.within_each (handles_reconcileTurn now _) _)
    (fun _ => Op.within_get_bind fun _ => Op.within_each (fun _ => handles_releaseHold now _ _) _ _) c

/-- A timeline that is answered is that of the reconciled index. -/
theorem queryTimeline_ok {c d : Coordinator} {now : Timestamp} {n : ResourceName} {window : Interval}
    {maxPoints : Nat} {view : CapacityTimeline}
    (run : (queryTimeline now n window maxPoints).exec c = (.ok view, d)) :
    Handles c d ∧ validateInterval window = .ok () ∧ 1 ≤ maxPoints ∧
      (⟨view.points, view.truncated⟩ : Timeline) = d.index.timeline n window maxPoints := by
  obtain ⟨⟨⟩, e, reconciled, run⟩ := Op.exec_bind_ok run
  obtain ⟨⟨⟩, valid, run⟩ := Op.exec_lift_bind_ok run
  obtain ⟨bounded, run⟩ := Op.exec_refuseIf_bind_ok run
  obtain ⟨⟩ := run
  refine ⟨(handles_reconcile now c).of_run reconciled, valid, ?_, rfl⟩
  simp only [Bool.or_eq_false_iff, decide_eq_false_iff_not] at bounded
  omega

end Coordinator

/-- **A timeline is exact** just when there are few instants of change among the matches that are
looked at, and the trees read the sums there; they do where no sum ever reached `2 ^ 62`. -/
theorem query_timeline_iff {c d : Coordinator} {now : Timestamp} {n : ResourceName}
    {window : Interval} {maxPoints : Nat} {view : CapacityTimeline} (formed : c.index.Formed)
    (run : (Coordinator.queryTimeline now n window maxPoints).exec c = (.ok view, d)) :
    (d.index.Draws n window maxPoints ⟨view.points, view.truncated⟩ ↔
      d.index.Drawable n window maxPoints) ∧
    (d.index.Built → (d.index.Draws n window maxPoints ⟨view.points, view.truncated⟩ ↔
      (CapacityIndex.changes window (d.index.considered n window maxPoints)).card ≤ maxPoints)) := by
  obtain ⟨handles, valid, pos, answer⟩ := Coordinator.queryTimeline_ok run
  obtain ⟨start, order, stop⟩ := validateInterval_ok valid
  have drawn := CapacityIndex.draws_iff (n := n) (formed.reaches handles) order pos
  rw [answer]
  refine ⟨drawn, fun built => drawn.trans ⟨fun drawable => drawable.few, fun few => ⟨few, ?_⟩⟩⟩
  intro t ht
  obtain ⟨since, before⟩ := CapacityIndex.containsInstant_iff.mp (Finset.mem_filter.mp ht).2
  rw [I64.le_def] at since
  rw [I64.lt_def] at before
  exact built.readsAt n (by omega) (by omega)

namespace Coordinator.Sample

/-- A coordinator with one reservation of 5 bits per second on a link, between the instants 10 and
20. -/
def briefly : Coordinator :=
  { index := after CapacityIndex.step {} [.insert
      { id := 31, holderGeneration := 1, resource := FixedName.lit "link"
        interval := ⟨10, 20⟩, amount := 5 }] }

/-- What it answers to a query with room for `n` points. -/
def briefTimeline (n : Nat) : CapacityTimeline :=
  { resource := FixedName.lit "link"
    window := ⟨0, 100⟩
    points := (briefly.index.timeline (FixedName.lit "link") ⟨0, 100⟩ n).points
    truncated := (briefly.index.timeline (FixedName.lit "link") ⟨0, 100⟩ n).truncated }

theorem briefly_answers {n : Nat} (lo : 1 ≤ n) (hi : n ≤ 4096) :
    (queryTimeline 0 (FixedName.lit "link") ⟨0, 100⟩ n).exec briefly =
      (.ok (briefTimeline n), briefly) := by
  have quiet : (reconcile 0).exec briefly = (.ok (), briefly) := rfl
  have bounded : (decide (n = 0) || decide (4096 < n)) = false := by
    simp only [Bool.or_eq_false_iff, decide_eq_false_iff_not]
    omega
  unfold queryTimeline
  rw [Op.exec_bind_of_ok quiet, bounded]
  rfl

end Coordinator.Sample

/-- Three points are enough for one reservation. -/
theorem query_timeline_briefly :
    (Coordinator.Sample.briefly.index.Draws (FixedName.lit "link") ⟨0, 100⟩ 3
        ⟨(Coordinator.Sample.briefTimeline 3).points, (Coordinator.Sample.briefTimeline 3).truncated⟩ ↔
      Coordinator.Sample.briefly.index.Drawable (FixedName.lit "link") ⟨0, 100⟩ 3) ∧
    (Coordinator.Sample.briefly.index.Built →
      (Coordinator.Sample.briefly.index.Draws (FixedName.lit "link") ⟨0, 100⟩ 3
        ⟨(Coordinator.Sample.briefTimeline 3).points, (Coordinator.Sample.briefTimeline 3).truncated⟩ ↔
      (CapacityIndex.changes ⟨0, 100⟩ (Coordinator.Sample.briefly.index.considered
        (FixedName.lit "link") ⟨0, 100⟩ 3)).card ≤ 3)) :=
  query_timeline_iff ⟨_, rfl⟩ (Coordinator.Sample.briefly_answers (by decide) (by decide))

/-- Two points are reported where one was asked for. -/
theorem timeline_too_long : ¬ ∀ (c d : Coordinator) (now : Timestamp) (n : ResourceName)
    (window : Interval) (maxPoints : Nat) (view : CapacityTimeline), c.index.Formed →
    (Coordinator.queryTimeline now n window maxPoints).exec c = (.ok view, d) →
      d.index.Draws n window maxPoints ⟨view.points, view.truncated⟩ := by
  intro all
  have drawn := all _ _ 0 _ _ 1 _ ⟨_, rfl⟩
    (Coordinator.Sample.briefly_answers (le_refl 1) (by decide))
  have two : (Coordinator.Sample.briefTimeline 1).points.length = 2 := by decide +kernel
  have few := drawn.few
  rw [two] at few
  omega

end Brf
