import Brf.IndexLaws
import Brf.Lib.Run
import Mathlib.Algebra.BigOperators.Group.List.Basic

/-!
# The interval index holds the exact sum

`IntervalCapacityIndex` against the amounts it was given and has not lost again.

* `loadAt us t` is the sum of the amounts whose interval covers the instant `t`.
* `IntervalIndex.Tracks x us`: the tree of `x` stores that sum on the whole timeline.
* `IndexCall` is a call of `add` or `remove`; `Tally` keeps the amounts that are live next to the
  index. A call is `Allowed` if it adds a positive amount on an interval of the timeline and no sum
  reaches `2 ^ 62`, or undoes an addition that has not been undone.

Results: `tracks_add`, `tracks_remove`, `peak_exact`, `exceeds_exact` and, over any sequence of
allowed calls, `peak_is_maximum`.
-/

namespace Brf

open Brf.Lib

/-- An amount over an interval. -/
abbrev Usage := Interval × Bandwidth

/-- The amount lies on the timeline and is positive. -/
structure Usage.Valid (u : Usage) : Prop where
  start : 0 ≤ u.1.start.val
  nonempty : u.1.start.val < u.1.stop.val
  stop : u.1.stop.val ≤ maxTimestampNs
  positive : 0 < u.2.val

/-- What an amount occupies of an instant. -/
def Usage.at' (u : Usage) (t : Int) : Int :=
  if u.1.start.val ≤ t ∧ t < u.1.stop.val then u.2.val else 0

/-- The sum of the amounts whose interval covers the instant. -/
def loadAt (us : List Usage) (t : Int) : Int := (us.map fun u => Usage.at' u t).sum

/-- `v` is the largest load of an instant of the window. -/
def IsPeakLoad (us : List Usage) (window : Interval) (v : Int) : Prop :=
  (∀ t, window.start.val ≤ t → t < window.stop.val → loadAt us t ≤ v) ∧
    ∃ t, window.start.val ≤ t ∧ t < window.stop.val ∧ loadAt us t = v

@[simp] theorem loadAt_nil (t : Int) : loadAt [] t = 0 := rfl

@[simp] theorem loadAt_cons (u : Usage) (us : List Usage) (t : Int) :
    loadAt (u :: us) t = Usage.at' u t + loadAt us t := by
  simp [loadAt]

theorem loadAt_perm {us vs : List Usage} (h : us.Perm vs) (t : Int) : loadAt us t = loadAt vs t :=
  (h.map _).sum_eq

theorem loadAt_erase {u : Usage} {us : List Usage} (h : u ∈ us) (t : Int) :
    loadAt us t = Usage.at' u t + loadAt (us.erase u) t := by
  rw [loadAt_perm (List.perm_cons_erase h) t, loadAt_cons]

theorem Usage.Valid.at_nonneg {u : Usage} (h : u.Valid) (t : Int) : 0 ≤ Usage.at' u t := by
  unfold Usage.at'
  split
  · exact h.positive.le
  · exact le_rfl

theorem loadAt_nonneg {us : List Usage} (h : ∀ u ∈ us, Usage.Valid u) (t : Int) :
    0 ≤ loadAt us t := by
  induction us with
  | nil => exact le_rfl
  | cons u us ih =>
    rw [loadAt_cons]
    have one := (h u List.mem_cons_self).at_nonneg t
    have rest := ih fun v hv => h v (List.mem_cons_of_mem _ hv)
    omega

/-- No instant carries more than all the amounts together. -/
theorem loadAt_le_total {us : List Usage} (h : ∀ u ∈ us, Usage.Valid u) (t : Int) :
    loadAt us t ≤ (us.map fun u => u.2.val).sum := by
  induction us with
  | nil => exact le_rfl
  | cons u us ih =>
    have positive := (h u List.mem_cons_self).positive
    have rest := ih fun v hv => h v (List.mem_cons_of_mem _ hv)
    rw [loadAt_cons, List.map_cons, List.sum_cons]
    unfold Usage.at'
    split <;> omega

/-- Fewer amounts carry less. -/
theorem loadAt_sublist {us vs : List Usage} (h : us.Sublist vs) (valid : ∀ u ∈ vs, Usage.Valid u)
    (t : Int) : loadAt us t ≤ loadAt vs t := by
  induction h with
  | slnil => exact le_rfl
  | cons u _ ih =>
    have one := (valid u List.mem_cons_self).at_nonneg t
    have rest := ih fun v hv => valid v (List.mem_cons_of_mem _ hv)
    rw [loadAt_cons]
    omega
  | cons_cons u _ ih =>
    have rest := ih fun v hv => valid v (List.mem_cons_of_mem _ hv)
    rw [loadAt_cons, loadAt_cons]
    omega

/-- Nothing occupies an instant outside the timeline. -/
theorem loadAt_outside {us : List Usage} (h : ∀ u ∈ us, Usage.Valid u) {t : Int}
    (out : t < 0 ∨ maxTimestampNs ≤ t) : loadAt us t = 0 := by
  induction us with
  | nil => rfl
  | cons u us ih =>
    have valid := h u List.mem_cons_self
    have start := valid.start
    have stop := valid.stop
    rw [loadAt_cons, ih fun v hv => h v (List.mem_cons_of_mem _ hv)]
    unfold Usage.at'
    rw [if_neg (by omega)]
    rfl

/-! ## The tree stores the sum -/

namespace IntervalIndex

/-- The largest sum the arithmetic of the index holds. -/
def maxLoad : Int := indexSaturation - 1

/-- The index stores the sum of `us`. -/
structure Tracks (x : IntervalIndex) (us : List Usage) : Prop where
  valid : ∀ u ∈ us, Usage.Valid u
  bounded : ∀ t, loadAt us t ≤ maxLoad
  count : x.liveIntervals = us.length
  tree : RangeTree.Represents maxLoad x.tree 0 maxTimestampNs (loadAt us)
  dropped : x.tree = .untouched → us = []

variable {x : IntervalIndex} {us vs : List Usage} {i : Interval} {a : Bandwidth}

theorem maxLoad_nonneg : 0 ≤ maxLoad := by decide

theorem maxLoad_le : maxLoad ≤ indexSaturation := by decide

theorem tracks_new : Tracks {} [] :=
  ⟨fun _ no => absurd no List.not_mem_nil, fun _ => maxLoad_nonneg, rfl,
    RangeTree.represents_fresh (by decide) maxLoad_nonneg, fun _ => rfl⟩

theorem tracks_dropped : Tracks ⟨.untouched, 0⟩ [] :=
  ⟨fun _ no => absurd no List.not_mem_nil, fun _ => maxLoad_nonneg, rfl, fun _ _ _ => rfl,
    fun _ => rfl⟩

theorem Tracks.perm (h : x.Tracks us) (p : us.Perm vs) : x.Tracks vs :=
  ⟨fun u hu => h.valid u (p.mem_iff.mpr hu), fun t => loadAt_perm p t ▸ h.bounded t,
    h.count.trans p.length_eq, h.tree.congr fun t _ _ => loadAt_perm p t, fun gone => by
      rw [h.dropped gone] at p
      exact p.symm.eq_nil⟩

/-- Adding a signed amount on an interval of the timeline. -/
theorem represents_addTree {t : RangeTree} {f : Int → Int} {delta : Int}
    (h : RangeTree.Represents maxLoad t 0 maxTimestampNs f) (touched : t ≠ .untouched)
    (fit : ∀ s, 0 ≤ RangeTree.added f i.start.val i.stop.val delta s ∧
      RangeTree.added f i.start.val i.stop.val delta s ≤ maxLoad) :
    RangeTree.Represents maxLoad (addTree t i delta) 0 maxTimestampNs
      (RangeTree.added f i.start.val i.stop.val delta) :=
  RangeTree.represents_add maxLoad_nonneg maxLoad_le 62 h touched (by decide) (by decide)
    fun s _ _ => fit s

/-- The load with one more amount. -/
theorem added_cons (u : Usage) (us : List Usage) :
    RangeTree.added (loadAt us) u.1.start.val u.1.stop.val u.2.val = loadAt (u :: us) := by
  funext t
  rw [loadAt_cons]
  unfold RangeTree.added Usage.at'
  split <;> omega

/-- The load with one amount less. -/
theorem added_erase {u : Usage} (h : u ∈ us) :
    RangeTree.added (loadAt us) u.1.start.val u.1.stop.val (-u.2.val) = loadAt (us.erase u) := by
  funext t
  unfold RangeTree.added
  rw [loadAt_erase h t]
  unfold Usage.at'
  split <;> omega

theorem touch_ne (t : RangeTree) : t.touch ≠ .untouched := by
  cases t <;> simp [RangeTree.touch, RangeTree.fresh]

theorem Usage.Valid.nonempty' {u : Usage} (h : u.Valid) : (u.1.empty || u.2.val = 0) = false := by
  have positive := h.positive
  have order : u.1.start < u.1.stop := h.nonempty
  simp [Interval.empty, order, positive.ne']

theorem tracks_add (h : x.Tracks us) {u : Usage} (valid : u.Valid)
    (fit : ∀ t, loadAt (u :: us) t ≤ maxLoad) : (x.add u.1 u.2).Tracks (u :: us) := by
  have all : ∀ v ∈ u :: us, Usage.Valid v := by
    intro v hv
    rcases List.mem_cons.mp hv with rfl | hv
    · exact valid
    · exact h.valid v hv
  have touched : RangeTree.Represents maxLoad x.tree.touch 0 maxTimestampNs (loadAt us) := by
    cases tree : x.tree with
    | untouched =>
      rw [h.dropped tree]
      exact RangeTree.represents_fresh (by decide) maxLoad_nonneg
    | node m z l r =>
      have stored := h.tree
      rw [tree] at stored
      exact stored
  have stored := @represents_addTree u.1 _ _ u.2.val touched (touch_ne _) fun t => by
    rw [added_cons]
    exact ⟨loadAt_nonneg all t, fit t⟩
  rw [added_cons] at stored
  unfold add
  rw [if_neg (by rw [Usage.Valid.nonempty' valid]; decide)]
  exact ⟨all, fit, by rw [h.count]; rfl, stored,
    fun gone => absurd gone (RangeTree.touched_add _ (touch_ne _))⟩

theorem tracks_remove (h : x.Tracks us) {u : Usage} (mem : u ∈ us) :
    (x.remove u.1 u.2).Tracks (us.erase u) := by
  have valid := h.valid u mem
  have all : ∀ v ∈ us.erase u, Usage.Valid v := fun v hv => h.valid v (List.mem_of_mem_erase hv)
  have touched : x.tree ≠ .untouched := fun gone => by
    rw [h.dropped gone] at mem
    exact absurd mem List.not_mem_nil
  have fit : ∀ t, loadAt (us.erase u) t ≤ maxLoad := fun t => by
    have whole := h.bounded t
    rw [loadAt_erase mem t] at whole
    have one := valid.at_nonneg t
    omega
  have stored := @represents_addTree u.1 _ _ (-u.2.val) h.tree touched fun t => by
    rw [added_erase mem]
    exact ⟨loadAt_nonneg all t, fit t⟩
  rw [added_erase mem] at stored
  have length := List.length_erase_of_mem mem
  unfold remove
  rw [if_neg (by rw [Usage.Valid.nonempty' valid]; decide), if_neg touched, h.count]
  dsimp only
  split
  · rename_i last
    have none : us.erase u = [] := List.length_eq_zero_iff.mp (by omega)
    rw [none]
    exact tracks_dropped
  · exact ⟨all, fit, length.symm, stored, fun gone => absurd gone (RangeTree.touched_add _ touched)⟩

/-! ## The queries read the sum -/

/-- The peak on the timeline is the largest load of the window, which may reach beyond it. -/
theorem isPeakLoad_of_isPeak (valid : ∀ u ∈ us, Usage.Valid u) {window : Interval}
    (nonempty : window.start.val < window.stop.val) {value : Int}
    (peak : RangeTree.IsPeak noValue (loadAt us) 0 0 maxTimestampNs window.start.val
      window.stop.val value) :
    IsPeakLoad us window (if value = noValue then 0 else value) := by
  have zero : ∀ t, loadAt us t + 0 = loadAt us t := fun t => Int.add_zero _
  obtain ⟨above, met⟩ := peak
  -- An instant off the timeline carries nothing, so the part of the window on it decides.
  have inside : ∀ t, window.start.val ≤ t → t < window.stop.val → 0 ≤ t → t < maxTimestampNs →
      loadAt us t ≤ value := fun t since before lo hi => zero t ▸ above t lo hi since before
  rcases met with ⟨t, lo, hi, since, before, top⟩ | ⟨bottom, missed⟩
  · rw [zero] at top
    have nonneg := loadAt_nonneg valid t
    rw [if_neg (by unfold noValue; omega)]
    refine ⟨fun s since before => ?_, t, since, before, top⟩
    by_cases out : s < 0 ∨ maxTimestampNs ≤ s
    · rw [loadAt_outside valid out]
      omega
    · exact inside s since before (by omega) (by omega)
  · have outside : ∀ s, window.start.val ≤ s → s < window.stop.val → loadAt us s = 0 := by
      intro s since before
      refine loadAt_outside valid ?_
      by_contra on
      exact missed s (by omega) (by omega) since before
    rw [if_pos bottom]
    exact ⟨fun s since before => (outside s since before).le, window.start.val, le_rfl, nonempty,
      outside _ le_rfl nonempty⟩

/-- The peak of the tree over a window that is not empty. -/
theorem queryTree_exact (h : x.Tracks us) {window : Interval}
    (nonempty : window.start.val < window.stop.val) :
    IsPeakLoad us window (queryTree x.tree window.start.val window.stop.val) := by
  unfold queryTree
  split
  · rename_i gone
    rw [h.dropped gone]
    exact ⟨fun t _ _ => le_rfl, window.start.val, le_rfl, nonempty, rfl⟩
  · refine isPeakLoad_of_isPeak h.valid nonempty ?_
    refine RangeTree.query_isPeak maxLoad_nonneg maxLoad_le (by decide) h.tree (by decide) nonempty
      fun t _ _ => ?_
    rw [Int.add_zero]
    exact ⟨loadAt_nonneg h.valid t, h.bounded t⟩

/-- The largest load of a window lies between nothing and the bound. -/
theorem Tracks.peak_range (h : x.Tracks us) {window : Interval} {v : Int}
    (peak : IsPeakLoad us window v) : 0 ≤ v ∧ v ≤ maxLoad := by
  obtain ⟨-, t, -, -, top⟩ := peak
  rw [← top]
  exact ⟨loadAt_nonneg h.valid t, h.bounded t⟩

/-- `peak` is the largest load of an instant of the window. -/
theorem peak_exact (h : x.Tracks us) {window : Interval}
    (nonempty : window.start.val < window.stop.val) :
    IsPeakLoad us window (x.peak window).val := by
  have peak := queryTree_exact h nonempty
  obtain ⟨low, high⟩ := h.peak_range peak
  have order : window.start < window.stop := nonempty
  have small : maxLoad ≤ 9223372036854775807 := by decide
  unfold IntervalIndex.peak
  rw [if_neg (by simp [Interval.empty, order]), I64.val_wrap_of_range (by omega) (by omega)]
  exact peak

/-- `exceeds` says whether some instant of the window carries more than the limit. -/
theorem exceeds_exact (h : x.Tracks us) {window : Interval} {limit : Bandwidth}
    (nonneg : 0 ≤ limit.val) :
    x.exceeds window limit = true ↔
      ∃ t, window.start.val ≤ t ∧ t < window.stop.val ∧ limit.val < loadAt us t := by
  by_cases nonempty : window.start < window.stop
  · unfold exceeds
    rw [if_neg (by simp [Interval.empty, nonempty])]
    split
    · rename_i gone
      rw [h.dropped gone]
      simp only [Bool.false_eq_true, false_iff]
      rintro ⟨t, -, -, more⟩
      rw [loadAt_nil] at more
      omega
    · rw [RangeTree.exceeds_iff maxLoad_nonneg maxLoad_le h.tree (by decide) nonempty
        fun t _ _ => by
          rw [Int.add_zero]
          exact ⟨loadAt_nonneg h.valid t, h.bounded t⟩]
      constructor
      · rintro ⟨t, -, -, since, before, more⟩
        exact ⟨t, since, before, by omega⟩
      · rintro ⟨t, since, before, more⟩
        -- Only an instant of the timeline can carry more than the limit.
        have on : ¬ (t < 0 ∨ maxTimestampNs ≤ t) := fun out => by
          rw [loadAt_outside h.valid out] at more
          omega
        exact ⟨t, by omega, by omega, since, before, by omega⟩
  · unfold exceeds
    rw [if_pos (by simp [Interval.empty, nonempty])]
    simp only [Bool.false_eq_true, false_iff]
    rintro ⟨t, since, before, -⟩
    have order : window.start.val < window.stop.val := lt_of_le_of_lt since before
    exact nonempty order

/-- The first amount is removed. -/
theorem tracks_remove_head {u : Usage} (h : x.Tracks (u :: us)) :
    (x.remove u.1 u.2).Tracks us := by
  have removed := tracks_remove h List.mem_cons_self
  rw [List.erase_cons_head] at removed
  exact removed

/-! ## An index that is only added to -/

/-- The index of the amounts. -/
def ofUsages (us : List Usage) : IntervalIndex := us.foldl (fun x u => x.add u.1 u.2) {}

/-- The tree is the cut-off tree of the sums of the amounts, which `big` bounds. -/
def CutOff (big : Int) (x : IntervalIndex) (us : List Usage) : Prop :=
  ∃ t : RangeTree, x.tree = t.cap indexSaturation ∧ t.Grown ∧ t ≠ .untouched ∧
    t.Represents big 0 maxTimestampNs (loadAt us)

theorem saturation_nonneg : 0 ≤ indexSaturation := by decide

theorem CutOff.add {big : Int} (h : CutOff big x us) (large : indexSaturation ≤ big) {u : Usage}
    (valid : ∀ v ∈ u :: us, Usage.Valid v) (small : u.2.val ≤ indexSaturation)
    (fit : ∀ t, loadAt (u :: us) t ≤ big) : CutOff big (x.add u.1 u.2) (u :: us) := by
  obtain ⟨t, tree, grown, touched, stored⟩ := h
  have own := valid u List.mem_cons_self
  have whole := saturation_nonneg.trans large
  refine ⟨RangeTree.add big treeFuel t 0 maxTimestampNs u.1.start.val u.1.stop.val u.2.val, ?_,
    grown.add whole own.positive.le _, RangeTree.touched_add _ touched, ?_⟩
  · have same : t.touch = t := by
      cases t with
      | untouched => exact absurd rfl touched
      | node m z l r => rfl
    unfold IntervalIndex.add
    rw [if_neg (by rw [Usage.Valid.nonempty' own]; decide)]
    dsimp only
    rw [RangeTree.cap_add saturation_nonneg large own.positive.le small _ grown, tree,
      ← RangeTree.cap_touch saturation_nonneg, same]
    rfl
  · have within : ∀ s, 0 ≤ s → s < maxTimestampNs →
        0 ≤ RangeTree.added (loadAt us) u.1.start.val u.1.stop.val u.2.val s ∧
          RangeTree.added (loadAt us) u.1.start.val u.1.stop.val u.2.val s ≤ big := by
      intro s _ _
      rw [added_cons]
      exact ⟨loadAt_nonneg valid s, fit s⟩
    have added := RangeTree.represents_add whole (le_refl big) 62 stored touched (by decide)
      (by decide) within
    rw [added_cons] at added
    exact added

theorem cutOff_foldl {big : Int} (large : indexSaturation ≤ big) {vs : List Usage}
    (valid : ∀ u ∈ vs, Usage.Valid u) (small : ∀ u ∈ vs, u.2.val ≤ indexSaturation)
    (fit : ∀ t, loadAt vs t ≤ big) : CutOff big (ofUsages vs) vs := by
  suffices from' : ∀ {us : List Usage} {x : IntervalIndex} (rest : List Usage),
      CutOff big x us → (rest ++ us).Perm vs →
      CutOff big (rest.foldl (fun x u => x.add u.1 u.2) x) vs by
    refine @from' [] {} vs ?_ (by simp)
    have bound := saturation_nonneg.trans large
    refine ⟨.fresh, ?_, ⟨le_rfl, le_rfl, trivial, trivial⟩, by simp [RangeTree.fresh],
      RangeTree.represents_fresh (by decide) bound⟩
    simp [RangeTree.fresh, RangeTree.cap, min_eq_right saturation_nonneg]
  intro us x rest
  induction rest generalizing us x with
  | nil =>
    rintro ⟨t, tree, grown, touched, stored⟩ perm
    exact ⟨t, tree, grown, touched, stored.congr fun s _ _ => loadAt_perm perm s⟩
  | cons u rest ih =>
    intro h perm
    have moved : (rest ++ u :: us).Perm vs := List.perm_middle.trans perm
    have part : ∀ v ∈ u :: us, v ∈ vs := fun v hv =>
      moved.mem_iff.mp (List.mem_append_right _ hv)
    have below : ∀ t, loadAt (u :: us) t ≤ big := fun t =>
      ((loadAt_sublist (List.sublist_append_right rest _)
        (fun v hv => valid v (moved.mem_iff.mp hv)) t).trans_eq (loadAt_perm moved t)).trans (fit t)
    exact ih (h.add large (fun v hv => valid v (part v hv)) (small u (part u List.mem_cons_self))
      below) moved

/-- The peak of amounts that are only added is their largest load, cut off where the arithmetic of
the index stops. -/
theorem peak_ofUsages (valid : ∀ u ∈ us, Usage.Valid u)
    (small : ∀ u ∈ us, u.2.val ≤ indexSaturation) {window : Interval}
    (nonempty : window.start.val < window.stop.val) :
    ∃ v, IsPeakLoad us window v ∧ ((ofUsages us).peak window).val = min indexSaturation v := by
  obtain ⟨t, tree, grown, touched, stored⟩ :=
    @cutOff_foldl (max indexSaturation (us.map fun u => u.2.val).sum) (le_max_left _ _) us valid
      small fun t => (loadAt_le_total valid t).trans (le_max_right _ _)
  generalize large : max indexSaturation (us.map fun u => u.2.val).sum = big at stored
  have above : indexSaturation ≤ big := large ▸ le_max_left _ _
  have whole := saturation_nonneg.trans above
  have lowest : noValue ≤ 0 := by decide
  have within : ∀ s, 0 ≤ s → s < maxTimestampNs → 0 ≤ loadAt us s + 0 ∧ loadAt us s + 0 ≤ big := by
    intro s _ _
    have bounded := (loadAt_le_total valid s).trans (le_max_right indexSaturation _)
    rw [Int.add_zero]
    exact ⟨loadAt_nonneg valid s, large ▸ bounded⟩
  have answer := RangeTree.query_isPeak whole (le_refl big) lowest stored (by decide) nonempty within
  have peak := isPeakLoad_of_isPeak valid nonempty answer
  refine ⟨_, peak, ?_⟩
  have nonneg : 0 ≤ (if RangeTree.query big noValue t 0 maxTimestampNs window.start.val
      window.stop.val 0 = noValue then 0 else RangeTree.query big noValue t 0 maxTimestampNs
      window.start.val window.stop.val 0) := by
    obtain ⟨-, s, -, -, top⟩ := peak
    exact top ▸ loadAt_nonneg valid s
  have cut := @RangeTree.query_cap _ _ saturation_nonneg above _ (lowest.trans saturation_nonneg)
    window.start.val window.stop.val t 0 maxTimestampNs 0 grown le_rfl
  rw [min_eq_right saturation_nonneg] at cut
  have kept : t.cap indexSaturation ≠ .untouched := by
    cases t with
    | untouched => exact absurd rfl touched
    | node m z l r => simp [RangeTree.cap]
  have order : window.start < window.stop := nonempty
  have none : noValue < 0 := by decide
  have bound : indexSaturation ≤ 9223372036854775807 := by decide
  unfold IntervalIndex.peak queryTree
  rw [if_neg (by simp [Interval.empty, order]), tree, if_neg kept]
  dsimp only
  rw [cut]
  generalize RangeTree.query big noValue t 0 maxTimestampNs window.start.val window.stop.val 0 = v
    at nonneg
  have same : (if min indexSaturation v = noValue then 0 else min indexSaturation v) =
      min indexSaturation (if v = noValue then 0 else v) := by
    have := saturation_nonneg
    split_ifs <;> omega
  rw [same, I64.val_wrap_of_range]
  · have := saturation_nonneg
    omega
  · omega

end IntervalIndex

/-! ## Sequences of calls -/

/-- A call of an interval index that changes it. -/
inductive IndexCall where
  | add (interval : Interval) (amount : Bandwidth)
  | remove (interval : Interval) (amount : Bandwidth)
  deriving DecidableEq, Repr

/-- An index, and the amounts added to it that have not been removed again. -/
structure Tally where
  index : IntervalIndex := {}
  live : List Usage := []
  deriving Inhabited

namespace Tally

/-- The index executes the call; the amounts are kept beside it. -/
def step (s : Tally) : IndexCall → Tally
  | .add interval amount => ⟨s.index.add interval amount, (interval, amount) :: s.live⟩
  | .remove interval amount => ⟨s.index.remove interval amount, s.live.erase (interval, amount)⟩

/-- An addition is of a positive amount, on an interval of the timeline, and keeps every sum below
`2 ^ 62`; a removal undoes an addition that is still live. -/
def Allowed (s : Tally) : IndexCall → Prop
  | .add interval amount => Usage.Valid (interval, amount) ∧
      ∀ t, loadAt ((interval, amount) :: s.live) t < 2 ^ 62
  | .remove interval amount => (interval, amount) ∈ s.live

/-- An allowed call keeps the index exact. -/
theorem tracks_step (s : Tally) (call : IndexCall) (h : s.index.Tracks s.live)
    (allowed : s.Allowed call) : (s.step call).index.Tracks (s.step call).live := by
  cases call with
  | add interval amount =>
    obtain ⟨valid, fit⟩ := allowed
    refine IntervalIndex.tracks_add h valid fun t => ?_
    have below := fit t
    have top : IntervalIndex.maxLoad + 1 = 2 ^ 62 := by decide
    omega
  | remove interval amount => exact IntervalIndex.tracks_remove h allowed

/-- The index is exact after every sequence of allowed calls. -/
theorem tracks_after {calls : List IndexCall} (allowed : Along step Allowed {} calls) :
    (after step {} calls).index.Tracks (after step {} calls).live :=
  invariant_along step (I := fun s => s.index.Tracks s.live) tracks_step IntervalIndex.tracks_new
    allowed

end Tally

/-- **The tree is the maximum of the pointwise sum.** After any sequence of additions of positive
amounts on intervals of the timeline, and of removals that each undo one of them, with every sum
below `2 ^ 62`: `peak` is the largest sum over the instants of a window that is not empty, and
`exceeds` says whether that maximum is above a limit. -/
theorem peak_is_maximum (calls : List IndexCall)
    (allowed : Along Tally.step Tally.Allowed {} calls) (window : Interval)
    (nonempty : window.empty = false) :
    let s := after Tally.step {} calls
    IsPeakLoad s.live window (s.index.peak window).val ∧
      ∀ limit : Bandwidth, 0 ≤ limit.val →
        (s.index.exceeds window limit = true ↔ limit.val < (s.index.peak window).val) := by
  intro s
  have tracks : s.index.Tracks s.live := Tally.tracks_after allowed
  have order : window.start.val < window.stop.val := by
    have start : window.start < window.stop := by simpa [Interval.empty] using nonempty
    exact start
  have peak := IntervalIndex.peak_exact tracks order
  refine ⟨peak, fun limit nonneg => ?_⟩
  obtain ⟨above, t, since, before, top⟩ := peak
  rw [IntervalIndex.exceeds_exact tracks nonneg]
  constructor
  · rintro ⟨u, since, before, more⟩
    exact lt_of_lt_of_le more (above u since before)
  · intro more
    exact ⟨t, since, before, top.symm ▸ more⟩

/-- Two overlapping amounts, of which one is removed again. -/
theorem peak_is_maximum_two :
    let s := after Tally.step {}
      [.add ⟨10, 30⟩ 5, .add ⟨20, 40⟩ 7, .remove ⟨10, 30⟩ 5]
    IsPeakLoad s.live ⟨0, 100⟩ (s.index.peak ⟨0, 100⟩).val ∧
      ∀ limit : Bandwidth, 0 ≤ limit.val →
        (s.index.exceeds ⟨0, 100⟩ limit = true ↔
          limit.val < (s.index.peak ⟨0, 100⟩).val) := by
  have first : Usage.Valid (⟨10, 30⟩, 5) := ⟨by decide, by decide, by decide, by decide⟩
  have second : Usage.Valid (⟨20, 40⟩, 7) := ⟨by decide, by decide, by decide, by decide⟩
  have one : ∀ t, loadAt [(⟨10, 30⟩, 5)] t < 2 ^ 62 := fun t =>
    lt_of_le_of_lt (loadAt_le_total (by simpa using first) t) (by decide)
  have two : ∀ t, loadAt [(⟨20, 40⟩, 7), (⟨10, 30⟩, 5)] t < 2 ^ 62 := fun t =>
    lt_of_le_of_lt (loadAt_le_total (by simpa using ⟨second, first⟩) t) (by decide)
  have live : ((⟨10, 30⟩, 5) : Usage) ∈ [((⟨20, 40⟩, 7) : Usage), (⟨10, 30⟩, 5)] := by decide
  exact peak_is_maximum [.add ⟨10, 30⟩ 5, .add ⟨20, 40⟩ 7, .remove ⟨10, 30⟩ 5]
    ⟨⟨first, one⟩, ⟨second, two⟩, live, trivial⟩ ⟨0, 100⟩ (by decide)

end Brf
