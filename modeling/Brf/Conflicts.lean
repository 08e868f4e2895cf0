import Brf.Deciding
import Brf.Lib.Steps
import Brf.Listing
import Mathlib.Data.Set.Card

/-!
# Conflict evidence

What `overlapping` reports of an index, and what `assess_locked` makes of it in the report of a refusal
for lack of capacity.

* `CapacityIndex.Formed` says that an index is the result of calls, whatever they were called with.
* `CapacityIndex.Conflicting` is the set that a report is about: the entries of a resource that have an
  instant in common with a window.
* `CapabilityDelta.Short` is the evidence that puts a resource among the short ones.

Results: `conflict_evidence` (a report holds nothing but conflicts, in order and each once, and is
complete unless it says otherwise).
-/

namespace Brf

open Brf.Lib

/-! ## What is in conflict -/

/-- The intervals have an instant in common. -/
def Interval.Shares (i j : Interval) : Prop :=
  ∃ t : Int, i.start.val ≤ t ∧ t < i.stop.val ∧ j.start.val ≤ t ∧ t < j.stop.val

/-- Of intervals that are not empty, `overlapping` compares the ends. -/
theorem Interval.shares_iff {i j : Interval} (hi : i.empty = false) (hj : j.empty = false) :
    i.Shares j ↔ i.start < j.stop ∧ j.start < i.stop := by
  simp only [Interval.empty, Bool.not_eq_false', decide_eq_true_eq, I64.lt_def] at hi hj
  simp only [Interval.Shares, I64.lt_def]
  constructor
  · rintro ⟨t, h⟩
    omega
  · intro h
    exact ⟨max i.start.val j.start.val, by omega⟩

/-- Nothing has an instant in common with an empty interval. -/
theorem Interval.not_shares_of_empty {i j : Interval} (h : j.empty = true) : ¬ i.Shares j := by
  simp only [Interval.empty, Bool.not_eq_true', decide_eq_false_iff_not, I64.lt_def] at h
  rintro ⟨t, shared⟩
  omega

namespace CapacityIndex

/-- The index is the result of calls. -/
def Formed (x : CapacityIndex) : Prop := ∃ calls, x = after step {} calls

theorem Formed.wf {x : CapacityIndex} (h : x.Formed) : x.Wf := by
  obtain ⟨calls, rfl⟩ := h
  exact invariant_along step (P := fun _ _ => True) (I := Wf) (fun x call wf _ => wf_step x call wf)
    wf_empty (along_of_forall step fun _ _ => trivial)

theorem Formed.sorted {x : CapacityIndex} (h : x.Formed) :
    EveryIn ResourceState.Sorted x.resources := by
  obtain ⟨calls, rfl⟩ := h
  exact invariant_along step (P := fun _ _ => True)
    (I := fun x => EveryIn ResourceState.Sorted x.resources)
    (fun x call sorted _ => sorted_step x call sorted) (fun _ _ no => absurd no (by simp))
    (along_of_forall step fun _ _ => trivial)

theorem Formed.listed {x : CapacityIndex} (h : x.Formed) (n : ResourceName) :
    (x.entriesOn n).Pairwise fun a b => a.interval.start ≤ b.interval.start := by
  unfold entriesOn
  cases there : x.resources[n]? with
  | none => exact List.Pairwise.nil
  | some s => exact h.sorted n s there

/-- The entries of a resource that have an instant in common with a window. -/
def Conflicting (x : CapacityIndex) (n : ResourceName) (window : Interval) : Set IndexEntry :=
  { e | x.Has e ∧ e.resource = n ∧ e.interval.Shares window }

/-! ## The walk over a listing -/

/-- The matches that a walk without limits finds. -/
def matching (listing : List IndexEntry) (window : Interval) : List IndexEntry :=
  listing.filter fun e => e.interval.start < window.stop && window.start < e.interval.stop

variable {listing : List IndexEntry} {window : Interval} {outputLimit scanLimit : Nat}

/-- What stands in front of the window's end. -/
theorem takeWhile_before
    (sorted : listing.Pairwise fun a b => a.interval.start ≤ b.interval.start) :
    (listing.takeWhile fun e => e.interval.start < window.stop) =
      listing.filter fun e => e.interval.start < window.stop := by
  refine takeWhile_eq_filter (sorted.imp fun {a b} le => ?_)
  simp only [decide_eq_true_eq]
  exact fun before => le.trans_lt before

/-- **A walk that is not truncated** has found all matches. -/
theorem walk_complete
    (sorted : listing.Pairwise fun a b => a.interval.start ≤ b.interval.start)
    (nonempty : window.empty = false)
    (complete : (walk listing window outputLimit scanLimit).truncated = false) :
    (walk listing window outputLimit scanLimit).entries.Perm (matching listing window) ∧
      (walk listing window outputLimit scanLimit).total = (matching listing window).length := by
  unfold walk at complete ⊢
  rw [if_neg (by simp [nonempty])] at complete ⊢
  dsimp only at complete ⊢
  rw [takeWhile_before sorted] at complete ⊢
  simp only [Bool.or_eq_false_iff, decide_eq_false_iff_not, not_lt] at complete
  obtain ⟨scanned, listed⟩ := complete
  rw [List.take_of_length_le scanned] at listed ⊢
  have all : ((listing.filter fun e => e.interval.start < window.stop).filter
      fun e => window.start < e.interval.stop) = matching listing window := by
    rw [List.filter_filter]
    unfold matching
    simp only [Bool.and_comm]
  rw [all] at listed ⊢
  rw [List.length_take] at listed
  rw [List.take_of_length_le (by omega)]
  exact ⟨List.perm_insertionSort _ _, rfl⟩

/-! ## Reports on one resource -/

/-- The order of reports, as an order of keys. -/
def reportKey (e : IndexEntry) : Timestamp ×ₗ (Timestamp ×ₗ (Identity128 ×ₗ ResourceName)) :=
  toLex (e.interval.start, toLex (e.interval.stop, toLex (e.id, e.resource)))

theorem reportOrder_iff (a b : IndexEntry) : reportOrder a b = true ↔ reportKey a ≤ reportKey b := by
  unfold reportOrder reportKey
  simp only [Prod.Lex.le_iff, ofLex_toLex]
  by_cases start : a.interval.start = b.interval.start <;>
    by_cases stop : a.interval.stop = b.interval.stop <;> by_cases id : a.id = b.id <;>
      simp [start, stop, id]

instance : Std.Total fun a b => (reportOrder a b : Prop) :=
  ⟨fun a b => by simpa only [reportOrder_iff] using le_total _ _⟩

instance : IsTrans IndexEntry fun a b => (reportOrder a b : Prop) :=
  ⟨fun a b c hab hbc => by
    rw [reportOrder_iff] at hab hbc ⊢
    exact hab.trans hbc⟩

/-- A report on a set of entries: some of them, each once and in order; all of them, and their number,
unless it says that some are missing. -/
structure Overlaps.Reports (answer : Overlaps) (entries : Set IndexEntry) : Prop where
  sound : ∀ e ∈ answer.entries, e ∈ entries
  once : answer.entries.Nodup
  sorted : answer.entries.Pairwise fun a b => reportOrder a b = true
  complete : answer.truncated = false →
    (∀ e, e ∈ answer.entries ↔ e ∈ entries) ∧ answer.total = entries.ncard
  missing : (∃ e ∈ entries, e ∉ answer.entries) → answer.truncated = true

theorem mem_matching {x : CapacityIndex} (h : x.Wf) {n : ResourceName} {window : Interval}
    (nonempty : window.empty = false) {e : IndexEntry} :
    e ∈ matching (x.entriesOn n) window ↔ e ∈ x.Conflicting n window := by
  unfold matching Conflicting
  rw [List.mem_filter, mem_entriesOn h, Set.mem_ofPred_eq, and_assoc]
  refine and_congr_right fun has => and_congr_right fun _ => ?_
  rw [Interval.shares_iff (h.valid e has).nonempty nonempty, Bool.and_eq_true, decide_eq_true_eq,
    decide_eq_true_eq]

theorem ncard_of_perm {α : Type} {s : Set α} {xs : List α} (single : xs.Nodup)
    (same : ∀ a, a ∈ xs ↔ a ∈ s) : s.ncard = xs.length := by
  classical
  have listed : s = ↑xs.toFinset := by
    ext a
    simp [same]
  rw [listed, Set.ncard_coe_finset, List.toFinset_card_of_nodup single]

/-- **`overlapping`** reports the conflicts of a window. -/
theorem Formed.overlapping {x : CapacityIndex} (h : x.Formed) (n : ResourceName) (window : Interval)
    (outputLimit scanLimit : Nat) :
    (x.overlapping n window outputLimit scanLimit).Reports (x.Conflicting n window) := by
  rw [overlapping_eq]
  have single := nodup_entriesOn h.wf n
  by_cases empty : window.empty = true
  · -- an empty window has no conflicts, and nothing is reported of it
    have none : ∀ e, e ∉ x.Conflicting n window := fun e he =>
      Interval.not_shares_of_empty empty he.2.2
    have nothing : x.Conflicting n window = ∅ := Set.eq_empty_of_forall_notMem none
    unfold walk
    rw [if_pos empty, nothing]
    exact ⟨by simp, by simp, by simp, by simp, by simp⟩
  · have nonempty : window.empty = false := by simpa using empty
    have sound : ∀ e ∈ (walk (x.entriesOn n) window outputLimit scanLimit).entries,
        e ∈ x.Conflicting n window := fun e he => by
      obtain ⟨listed, before, after⟩ := mem_walk he
      rw [← mem_matching h.wf nonempty]
      exact List.mem_filter.mpr ⟨listed, by simp [before, after]⟩
    have complete : (walk (x.entriesOn n) window outputLimit scanLimit).truncated = false →
        (∀ e, e ∈ (walk (x.entriesOn n) window outputLimit scanLimit).entries ↔
          e ∈ x.Conflicting n window) ∧
        (walk (x.entriesOn n) window outputLimit scanLimit).total =
          (x.Conflicting n window).ncard := fun whole => by
      obtain ⟨perm, total⟩ := walk_complete (h.listed n) nonempty whole
      refine ⟨fun e => by rw [perm.mem_iff, mem_matching h.wf nonempty], ?_⟩
      rw [total, ncard_of_perm (single.filter _) fun e => mem_matching h.wf nonempty]
      rfl
    refine ⟨sound, nodup_walk single _ _ _, ?_, complete, ?_⟩
    · unfold walk
      rw [if_neg empty]
      exact List.pairwise_insertionSort (fun a b => (reportOrder a b : Prop)) _
    · rintro ⟨e, conflicting, absent⟩
      by_contra whole
      exact absent (((complete (by simpa using whole)).1 e).mpr conflicting)

end CapacityIndex

/-! ## The report of a refusal -/

/-- The evidence leaves no room under the policy. -/
def CapabilityDelta.Short (policy : PolicyRecord) (delta : CapabilityDelta) : Prop :=
  delta.committableCeiling < delta.committedPeakAfter ∧ (policy.allowOvercommit = true →
    delta.committableCeiling.val + policy.overcommitAllowance.val < delta.committedPeakAfter.val)

namespace Coordinator

variable {c : Coordinator} {terms : ReservationTerms} {binding : ResolvedBinding}
  {policy : PolicyRecord}

/-- Every short resource is remembered, unless the assessment is stale anyway. -/
def Scan.Remembers (policy : PolicyRecord) (scan : Scan) : Prop :=
  scan.stale = false → ∀ delta ∈ scan.deltas, delta.Short policy →
    delta.resource ∈ scan.shortResources

theorem Scan.problem_fields (scan : Scan) (text : Text) : (scan.problem text).stale = scan.stale ∧
    (scan.problem text).deltas = scan.deltas ∧
    (scan.problem text).shortResources = scan.shortResources := by
  unfold Scan.problem
  split <;> simp

/-- What one evidence adds to the loop. -/
theorem Scan.addDelta_fields (scan : Scan) (capacity : ResourceCapacity) (delta : CapabilityDelta) :
    (scan.addDelta policy capacity delta).stale = scan.stale ∧
    (scan.addDelta policy capacity delta).deltas = scan.deltas ++ [delta] ∧
    scan.shortResources ⊆ (scan.addDelta policy capacity delta).shortResources ∧
    (delta.Short policy →
      delta.resource ∈ (scan.addDelta policy capacity delta).shortResources) := by
  have fields := fun (scan : Scan) => scan.problem_fields
  have short : delta.Short policy → (decide (delta.committedPeakAfter ≤ delta.committableCeiling) ||
      (policy.allowOvercommit && decide (delta.committedPeakAfter.val ≤
        delta.committableCeiling.val + policy.overcommitAllowance.val))) = false := by
    rintro ⟨exceeded, beyond⟩
    simpa [exceeded] using beyond
  unfold Scan.addDelta
  dsimp only
  generalize (decide (delta.committedPeakAfter ≤ delta.committableCeiling) || _) = covered at short
  split <;> split <;> cases covered <;> simp_all

theorem Scan.Remembers.addDelta {scan : Scan} (h : scan.Remembers policy)
    (capacity : ResourceCapacity) (delta : CapabilityDelta) :
    (scan.addDelta policy capacity delta).Remembers policy := by
  obtain ⟨stale, deltas, kept, added⟩ := @Scan.addDelta_fields policy scan capacity delta
  intro current other mem short
  rw [stale] at current
  rw [deltas, List.mem_append, List.mem_singleton] at mem
  rcases mem with old | rfl
  · exact kept (h current other old short)
  · exact added short

theorem remembers_scanResource {scan : Scan} (h : scan.Remembers policy) (ref : ResourceRef) :
    (c.scanResource terms policy scan ref).Remembers policy := by
  unfold scanResource
  dsimp only
  split
  · exact fun no => Bool.noConfusion no
  · split
    · exact fun no => Bool.noConfusion no
    · exact h.addDelta _ _

theorem remembers_scan {scan : Scan} (h : scan.Remembers policy) (refs : List ResourceRef) :
    (refs.foldl (c.scanResource terms policy) scan).Remembers policy := by
  induction refs generalizing scan with
  | nil => exact h
  | cons ref refs ih => exact ih (remembers_scanResource h ref)

/-- Conflicts that are not truncated are those of every resource. -/
theorem conflictSet_complete (h : c.index.Formed) {window : Interval} {maxConflicts : Nat}
    {short : List ResourceName}
    (whole : (c.conflictSet window maxConflicts short).truncated = false) {name : ResourceName}
    (mem : name ∈ short) {e : IndexEntry} (he : e ∈ c.index.Conflicting name window) :
    conflictEntry e ∈ (c.conflictSet window maxConflicts short).entries := by
  unfold conflictSet at whole ⊢
  simp only [Bool.or_eq_false_iff, List.any_eq_false, List.mem_map, decide_eq_false_iff_not, not_lt]
    at whole
  obtain ⟨scans, few⟩ := whole
  dsimp only
  rw [List.take_of_length_le few, List.mem_insertionSort, List.mem_flatMap]
  have listed := h.overlapping name window maxConflicts c.config.indexScanLimit
  have whole := scans _ ⟨name, mem, rfl⟩
  exact ⟨_, List.mem_map_of_mem mem, List.mem_map_of_mem
    (((listed.complete (by simpa using whole)).1 e).mpr he)⟩

/-- **A refusal for lack of capacity** whose conflicts are not truncated names every conflict on a
short resource. -/
theorem refusal_complete (h : c.index.Formed)
    (refused : (c.assess terms binding policy).outcome = .insufficientCapacity)
    (whole : (c.assess terms binding policy).conflicts.truncated = false) {delta : CapabilityDelta}
    (mem : delta ∈ (c.assess terms binding policy).deltas) (short : delta.Short policy)
    {e : IndexEntry} (he : e ∈ c.index.Conflicting delta.resource terms.interval) :
    conflictEntry e ∈ (c.assess terms binding policy).conflicts.entries := by
  have remembers : Scan.Remembers policy (binding.resources.foldl (c.scanResource terms policy)
      { firstProblem := (c.stalePath terms binding).getD [] }) :=
    remembers_scan (fun _ _ no => absurd no List.not_mem_nil) binding.resources
  unfold assess at refused whole mem ⊢
  dsimp only at refused whole mem ⊢
  generalize binding.resources.foldl _ _ = scan at *
  split_ifs at refused whole mem ⊢ with path stale
  rw [List.mem_insertionSort] at mem
  exact conflictSet_complete h whole (remembers (by simpa using stale) delta mem short) he

end Coordinator

/-- **Conflict evidence** is complete or says that it is not: what `overlapping` reports, and what a
refusal for lack of capacity makes of it. -/
theorem conflict_evidence {c : Coordinator} (formed : c.index.Formed) :
    (∀ n window outputLimit scanLimit,
      (c.index.overlapping n window outputLimit scanLimit).Reports (c.index.Conflicting n window)) ∧
    ∀ terms binding policy, (c.assess terms binding policy).outcome = .insufficientCapacity →
      (c.assess terms binding policy).conflicts.truncated = false →
      ∀ delta ∈ (c.assess terms binding policy).deltas, delta.Short policy →
        ∀ e ∈ c.index.Conflicting delta.resource terms.interval,
          Coordinator.conflictEntry e ∈ (c.assess terms binding policy).conflicts.entries :=
  ⟨formed.overlapping, fun _ _ _ refused whole _ mem short _ he =>
    Coordinator.refusal_complete formed refused whole mem short he⟩

theorem conflict_evidence_lightlyUsed :
    (∀ n window outputLimit scanLimit,
      (Coordinator.Sample.lightlyUsed.index.overlapping n window outputLimit scanLimit).Reports
        (Coordinator.Sample.lightlyUsed.index.Conflicting n window)) ∧
    ∀ terms binding policy,
      (Coordinator.Sample.lightlyUsed.assess terms binding policy).outcome = .insufficientCapacity →
      (Coordinator.Sample.lightlyUsed.assess terms binding policy).conflicts.truncated = false →
      ∀ delta ∈ (Coordinator.Sample.lightlyUsed.assess terms binding policy).deltas,
        delta.Short policy →
        ∀ e ∈ Coordinator.Sample.lightlyUsed.index.Conflicting delta.resource terms.interval,
          Coordinator.conflictEntry e ∈
            (Coordinator.Sample.lightlyUsed.assess terms binding policy).conflicts.entries :=
  conflict_evidence ⟨_, rfl⟩

end Brf
