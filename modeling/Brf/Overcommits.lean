import Brf.Deciding
import Brf.Listing
import Brf.Reachable
import Mathlib.Data.List.TakeWhile

/-!
# What a resource owes

`detect_overcommit_locked` measures the obligations on a resource in two parts, those that the index
holds and those on generations that are gone, and compares the larger of the two peaks with the
ceiling. `resolve_overcommit` measures both in one index, but only as far as its scan reaches.

* `obligations`: the amounts that a resource owes, of both kinds; `loadAt` is their sum at an
  instant.
* `reachedUsages`: those that the scan of a resolution reaches, and `stoppingPeak` their peak, which the
  resolution compares with the ceiling.

Results: `stoppingPeak_exact`, `lt_obligationPeak`, `emergency_detectOvercommit` and `detection_exact`.
-/

namespace Brf

open Brf.Lib

/-- The ceiling of a resource; a withdrawn one has none. -/
def CapacityEntry.ceiling (entry : CapacityEntry) : Bandwidth :=
  if entry.withdrawn then 0 else entry.capacity.committableCeiling

/-- A record whose window and amount pass `validate_terms`. -/
structure ReservationRecord.Sized (r : ReservationRecord) : Prop where
  window : validateInterval r.terms.interval = .ok ()
  amount : 0 < r.terms.amount.val ∧ r.terms.amount.val ≤ maxBandwidthBps

theorem CapacityEntry.ceiling_range {entry : CapacityEntry} (sized : entry.capacity.Sized) :
    0 ≤ entry.ceiling.val ∧ entry.ceiling.val ≤ maxBandwidthBps := by
  have reservable := sized.reservable
  have headroom := sized.headroom
  have none : (0 : Bandwidth).val = 0 := rfl
  unfold maxBandwidthBps at *
  unfold ceiling ResourceCapacity.committableCeiling
  split
  · omega
  · split
    · omega
    · rename_i more
      have more : ¬ entry.capacity.reservableCapacity.val ≤ entry.capacity.protectedHeadroom.val :=
        more
      rw [I64.val_wrap_of_range (by omega) (by omega)]
      omega

/-- What a record consumes, if that is something, is a positive amount on the timeline. -/
theorem ReservationRecord.Sized.usage {r : ReservationRecord} (h : r.Sized)
    (some : r.consumingInterval.empty = false) :
    Usage.Valid (r.consumingInterval, r.terms.amount) := by
  obtain ⟨start, order, stop⟩ := validateInterval_ok h.window
  have inside : r.consumingInterval.stop.val ≤ r.terms.interval.stop.val :=
    r.consumingInterval_stop_le (le_of_lt order)
  have same := r.consumingInterval_start
  have nonempty : r.consumingInterval.start < r.consumingInterval.stop := by
    simpa [Interval.empty] using some
  exact ⟨by rw [same]; exact start, nonempty, inside.trans stop, h.amount.1⟩

/-! ## Peaks over the whole timeline -/

/-- Some instant carries more than the limit if and only if the peak over the timeline is more. -/
theorem lt_peak_iff {us : List Usage} (valid : ∀ u ∈ us, Usage.Valid u) {v limit : Int}
    (peak : IsPeakLoad us horizon v) (nonneg : 0 ≤ limit) :
    limit < v ↔ ∃ t, limit < loadAt us t := by
  obtain ⟨above, t, -, -, top⟩ := peak
  constructor
  · intro more
    exact ⟨t, top ▸ more⟩
  · rintro ⟨s, more⟩
    by_cases out : s < 0 ∨ maxTimestampNs ≤ s
    · rw [loadAt_outside valid out] at more
      omega
    · have stop : horizon.stop.val = maxTimestampNs := rfl
      have start : horizon.start.val = 0 := rfl
      exact lt_of_lt_of_le more (above s (by omega) (by omega))

theorem IsPeakLoad.perm {us vs : List Usage} {window : Interval} {v : Int}
    (h : IsPeakLoad us window v) (perm : us.Perm vs) : IsPeakLoad vs window v := by
  unfold IsPeakLoad at h ⊢
  simpa only [loadAt_perm perm] using h

/-- No instant, on the timeline or off it, carries more than the peak. -/
theorem IsPeakLoad.above {us : List Usage} {v : Int} (peak : IsPeakLoad us horizon v)
    (valid : ∀ u ∈ us, Usage.Valid u) (t : Int) : loadAt us t ≤ v := by
  have nonneg : 0 ≤ v := by
    obtain ⟨-, s, -, -, top⟩ := peak
    exact top ▸ loadAt_nonneg valid s
  by_contra more
  exact absurd ((lt_peak_iff valid peak nonneg).mpr ⟨t, not_le.mp more⟩) (lt_irrefl v)

/-- An amount is part of the load at its start. -/
theorem le_loadAt {u : Usage} {us : List Usage} (valid : ∀ v ∈ us, Usage.Valid v) (mem : u ∈ us) :
    u.2.val ≤ loadAt us u.1.start.val := by
  have rest := loadAt_nonneg (fun v hv => valid v (List.mem_of_mem_erase hv) :
    ∀ v ∈ us.erase u, Usage.Valid v) u.1.start.val
  have own : Usage.at' u u.1.start.val = u.2.val := if_pos ⟨le_rfl, (valid u mem).nonempty⟩
  rw [loadAt_erase mem]
  omega

namespace IntervalIndex

theorem ofUsages_cons_empty {u : Usage} (none : u.1.empty = true) (x : IntervalIndex) :
    x.add u.1 u.2 = x := by
  simp [IntervalIndex.add, none]

/-- An empty interval adds nothing. -/
theorem ofUsages_filter (us : List Usage) :
    ofUsages (us.filter fun u => !u.1.empty) = ofUsages us := by
  unfold ofUsages
  generalize ({} : IntervalIndex) = x
  induction us generalizing x with
  | nil => rfl
  | cons u us ih =>
    by_cases none : u.1.empty = true
    · rw [List.filter_cons_of_neg (by simp [none]), List.foldl_cons, ofUsages_cons_empty none, ih]
    · rw [List.filter_cons_of_pos (by simpa using none), List.foldl_cons, List.foldl_cons, ih]

/-- The peak of amounts that are only added is above a limit where their load is. -/
theorem lt_peak_ofUsages {us : List Usage} (valid : ∀ u ∈ us, Usage.Valid u)
    (small : ∀ u ∈ us, u.2.val ≤ indexSaturation) {limit : Bandwidth} (nonneg : 0 ≤ limit.val)
    (below : limit.val ≤ maxBandwidthBps) :
    limit < (ofUsages us).peak horizon ↔ ∃ t, limit.val < loadAt us t := by
  have bound : maxBandwidthBps < indexSaturation := by decide
  have nonempty : horizon.start.val < horizon.stop.val := by decide
  obtain ⟨v, peak, value⟩ := peak_ofUsages valid small nonempty
  have order : limit < (ofUsages us).peak horizon ↔ limit.val < min indexSaturation v :=
    value ▸ Iff.rfl
  rw [order, ← lt_peak_iff valid peak nonneg]
  omega

end IntervalIndex

namespace Coordinator

variable {c d : Coordinator} {n : ResourceName}

/-! ## The obligations of a resource -/

/-- The commitments that the index holds for a resource. -/
def indexedUsages (c : Coordinator) (n : ResourceName) : List Usage :=
  ((c.index.entriesOn n).filter fun e => e.kind = .reservation).map IndexEntry.usage

/-- The obligations on a resource that no live generation accounts for. -/
def staleUsages (c : Coordinator) (n : ResourceName) : List Usage :=
  (c.outstanding n).map fun r => (r.consumingInterval, r.terms.amount)

/-- Everything that the resource owes. -/
def obligations (c : Coordinator) (n : ResourceName) : List Usage :=
  c.indexedUsages n ++ c.staleUsages n

/-- What of it the scan of a resolution reaches. -/
def reachedUsages (c : Coordinator) (n : ResourceName) : List Usage :=
  (((c.index.entriesOn n).take c.config.indexScanLimit).filter
    fun e => e.kind = .reservation).map IndexEntry.usage ++ c.staleUsages n

/-- The peak that `resolve_overcommit` compares with the ceiling. -/
def stoppingPeak (c : Coordinator) (n : ResourceName) : Bandwidth :=
  ((c.resolutionCandidates n).foldl (fun (x : IntervalIndex) e => x.add e.interval e.amount)
    {}).peak horizon

/-- The records of the store pass `validate_terms`. -/
def AllSized (c : Coordinator) : Prop :=
  ∀ (k : ReservationKey) (r : ReservationRecord), c.records[k]? = some r → r.Sized

theorem mem_outstanding {r : ReservationRecord} (mem : r ∈ c.outstanding n) :
    (∃ k : ReservationKey, c.records[k]? = some r) ∧ r.consumes = true ∧
      c.boundStale n r = true ∧ r.consumingInterval.empty = false := by
  obtain ⟨stored, owed⟩ := List.mem_filter.mp mem
  simp only [Bool.and_eq_true, Bool.not_eq_true'] at owed
  exact ⟨Map.mem_values.mp stored, owed.1.1, owed.1.2, owed.2⟩

theorem staleUsages_valid (sized : c.AllSized) :
    ∀ u ∈ c.staleUsages n, Usage.Valid u ∧ u.2.val ≤ indexSaturation := by
  have bound : maxBandwidthBps ≤ indexSaturation := by decide
  intro u mem
  obtain ⟨r, owed, rfl⟩ := List.mem_map.mp mem
  obtain ⟨⟨k, stored⟩, -, -, some⟩ := mem_outstanding owed
  exact ⟨(sized k r stored).usage some, (sized k r stored).amount.2.trans bound⟩

/-! ## The scan of a resolution -/

/-- A bounded walk over entries of the timeline is a permutation of its beginning. -/
theorem walk_perm {es : List IndexEntry} (valid : ∀ e ∈ es, e.usage.Valid) (limit : Nat) :
    (CapacityIndex.walk es horizon limit limit).entries.Perm (es.take limit) := by
  have stop : horizon.stop.val = maxTimestampNs := rfl
  have start : horizon.start.val = 0 := rfl
  have all : (es.takeWhile fun e => e.interval.start < horizon.stop) = es := by
    rw [List.takeWhile_eq_self_iff]
    intro e mem
    have order := (valid e mem).nonempty
    have last := (valid e mem).stop
    have before : e.interval.start.val < horizon.stop.val := lt_of_lt_of_le order last
    exact decide_eq_true before
  have matched : ((es.take limit).filter fun e => horizon.start < e.interval.stop) =
      es.take limit := by
    rw [List.filter_eq_self]
    intro e mem
    have order := (valid e (List.mem_of_mem_take mem)).nonempty
    have first := (valid e (List.mem_of_mem_take mem)).start
    have after : horizon.start.val < e.interval.stop.val := lt_of_le_of_lt first order
    exact decide_eq_true after
  have nonempty : horizon.empty = false := by decide
  unfold CapacityIndex.walk
  simp only [nonempty, Bool.false_eq_true, if_false, all, matched, List.take_take, min_self]
  exact List.perm_insertionSort _ _

/-- The entries that a resolution considers, as amounts. -/
theorem candidates_usages (valid : ∀ e ∈ c.index.entriesOn n, e.usage.Valid) :
    (((c.resolutionCandidates n).map IndexEntry.usage).filter fun u => !u.1.empty).Perm
      (c.reachedUsages n) := by
  have scanned := (walk_perm valid c.config.indexScanLimit).filter fun e => e.kind = .reservation
  have owed : ((((c.records.values.filter fun r => r.consumes && c.boundStale n r).map fun r =>
      recordEntry r { resource := n, generation := 0 }).map IndexEntry.usage).filter
        fun u => !u.1.empty) = c.staleUsages n := by
    unfold staleUsages outstanding
    rw [List.map_map, List.filter_map, List.filter_filter]
    refine congrArg _ (List.filter_congr fun r _ => ?_)
    exact Bool.and_comm _ _
  have indexed : ((((c.index.entriesOn n).take c.config.indexScanLimit).filter
      fun e => e.kind = .reservation).map IndexEntry.usage).filter (fun u => !u.1.empty) =
        (((c.index.entriesOn n).take c.config.indexScanLimit).filter
          fun e => e.kind = .reservation).map IndexEntry.usage := by
    rw [List.filter_eq_self]
    intro u mem
    obtain ⟨e, listed, rfl⟩ := List.mem_map.mp mem
    have own := valid e (List.mem_of_mem_take (List.mem_filter.mp listed).1)
    have order : e.usage.1.start < e.usage.1.stop := own.nonempty
    simp [Interval.empty, order]
  unfold resolutionCandidates reachedUsages
  dsimp only
  rw [CapacityIndex.overlapping_eq, List.map_append, List.filter_append, owed, ← indexed]
  exact ((scanned.map _).filter _).append_right _

/-- **What a resolution measures** is the peak of what its scan reaches. -/
theorem stoppingPeak_exact (valid : ∀ e ∈ c.index.entriesOn n, e.usage.Valid ∧
    e.amount.val ≤ indexSaturation) (sized : c.AllSized) :
    ∃ v, IsPeakLoad (c.reachedUsages n) horizon v ∧ (c.stoppingPeak n).val = min indexSaturation v := by
  have perm := candidates_usages fun e he => (valid e he).1
  have all : ∀ u ∈ c.reachedUsages n, Usage.Valid u ∧ u.2.val ≤ indexSaturation := by
    intro u mem
    rcases List.mem_append.mp mem with indexed | stale
    · obtain ⟨e, listed, rfl⟩ := List.mem_map.mp indexed
      exact valid e (List.mem_of_mem_take (List.mem_filter.mp listed).1)
    · exact staleUsages_valid sized u stale
  have measured : c.stoppingPeak n = (IntervalIndex.ofUsages
      (((c.resolutionCandidates n).map IndexEntry.usage).filter fun u => !u.1.empty)).peak
        horizon := by
    rw [IntervalIndex.ofUsages_filter]
    unfold stoppingPeak IntervalIndex.ofUsages
    rw [List.foldl_map]
    rfl
  have nonempty : horizon.start.val < horizon.stop.val := by decide
  rw [measured]
  obtain ⟨v, peak, value⟩ := IntervalIndex.peak_ofUsages
    (fun u hu => (all u (perm.mem_iff.mp hu)).1) (fun u hu => (all u (perm.mem_iff.mp hu)).2) nonempty
  exact ⟨v, peak.perm perm, value⟩

/-! ## The detection -/

/-- A recorded emergency is open unless it is recorded as resolved. -/
theorem emergency_recordOvercommit (mutation : OvercommitMutation) (c : Coordinator) :
    Op.Ensures (recordOvercommit mutation) c fun r d =>
      r = .ok () → d.emergency mutation.resource = !mutation.resolved := by
  unfold recordOvercommit
  apply Op.ensures_bind
  apply Op.ensures_discard
  refine (ensures_appendRecord _ c).mono ?_
  rintro (e | sequence) c₁ -
  · intro no
    cases no
  · refine Op.ensures_modify fun _ => ?_
    simp [emergency]

/-- The detection opens an emergency if its peak is above the ceiling, and closes it otherwise. -/
theorem emergency_detectOvercommit {entry : CapacityEntry} {now : Timestamp}
    (known : c.ledger[n]? = some entry) (done : (detectOvercommit n now).exec c = (.ok (), d)) :
    d.emergency n = decide (entry.ceiling < c.obligationPeak n) := by
  unfold detectOvercommit at done
  rw [Op.exec_get_bind, known] at done
  dsimp only at done
  change (if (!decide (entry.ceiling < c.obligationPeak n) && c.emergency n) = true then _ else
    if (decide (entry.ceiling < c.obligationPeak n) && !c.emergency n) = true then _ else _ :
      Method Unit).exec c = _ at done
  cases exceeds : decide (entry.ceiling < c.obligationPeak n) <;> cases opened : c.emergency n
  all_goals
    rw [exceeds, opened] at done
    simp only [Bool.not_true, Bool.not_false, Bool.and_true, Bool.and_false, Bool.false_eq_true,
      if_true, if_false] at done
  · obtain rfl : c = d := congrArg Prod.snd done
    exact opened
  · exact (emergency_recordOvercommit _ c).of_run done rfl
  · exact (emergency_recordOvercommit _ c).of_run done rfl
  · obtain rfl : c = d := congrArg Prod.snd done
    exact opened

/-- The peak of the commitments that an exact index holds. -/
theorem peakCommitted_exact (exact : c.index.Exact) (n : ResourceName) :
    IsPeakLoad (c.indexedUsages n) horizon (c.index.peakCommitted n horizon).val := by
  have nonempty : horizon.start.val < horizon.stop.val := by decide
  unfold indexedUsages CapacityIndex.peakCommitted CapacityIndex.entriesOn
  cases there : c.index.resources[n]? with
  | none => exact ⟨fun _ _ _ => le_rfl, _, le_rfl, nonempty, rfl⟩
  | some s => exact IntervalIndex.peak_exact (exact n s there).committed nonempty

theorem indexedUsages_valid (exact : c.index.Exact) : ∀ u ∈ c.indexedUsages n, Usage.Valid u := by
  intro u mem
  obtain ⟨e, listed, rfl⟩ := List.mem_map.mp mem
  exact (CapacityIndex.exact_stateOf exact n).combined.valid _
    (List.mem_map_of_mem (List.mem_filter.mp listed).1)

/-- **What the detection measures** is the larger of two peaks. -/
theorem lt_obligationPeak (exact : c.index.Exact) (sized : c.AllSized) {limit : Bandwidth}
    (nonneg : 0 ≤ limit.val) (below : limit.val ≤ maxBandwidthBps) :
    limit < c.obligationPeak n ↔ (∃ t, limit.val < loadAt (c.indexedUsages n) t) ∨
      ∃ t, limit.val < loadAt (c.staleUsages n) t := by
  have stale := IntervalIndex.lt_peak_ofUsages (fun u hu => (staleUsages_valid (n := n) sized u hu).1)
    (fun u hu => (staleUsages_valid sized u hu).2) nonneg below
  have live := lt_peak_iff (indexedUsages_valid exact) (peakCommitted_exact exact n) nonneg
  have measured : (c.outstanding n).foldl (fun (x : IntervalIndex) r =>
      x.add r.consumingInterval r.terms.amount) {} = IntervalIndex.ofUsages (c.staleUsages n) := by
    unfold staleUsages IntervalIndex.ofUsages
    rw [List.foldl_map]
  rw [← stale, ← live]
  unfold obligationPeak
  dsimp only
  rw [measured]
  split
  · rename_i none
    have nothing : c.staleUsages n = [] := by
      unfold staleUsages
      rw [List.isEmpty_iff.mp none]
      rfl
    simp only [nothing, loadAt_nil, exists_const] at stale
    rw [nothing, stale]
    constructor
    · exact .inl
    · rintro (more | more)
      · exact more
      · omega
  · generalize (IntervalIndex.ofUsages (c.staleUsages n)).peak horizon = a
    generalize c.index.peakCommitted n horizon = b
    have order : ∀ x y : Bandwidth, x < y ↔ x.val < y.val := fun _ _ => Iff.rfl
    split
    · simp only [order] at *
      omega
    · simp only [order] at *
      omega

theorem entriesOn_valid (exact : c.index.Exact) :
    ∀ e ∈ c.index.entriesOn n, e.usage.Valid ∧ e.amount.val ≤ indexSaturation := by
  intro e listed
  have tracks := (CapacityIndex.exact_stateOf exact n).combined
  have mem : e.usage ∈ (c.index.entriesOn n).map IndexEntry.usage := List.mem_map_of_mem listed
  have whole := (le_loadAt tracks.valid mem).trans (tracks.bounded _)
  exact ⟨tracks.valid _ mem, whole.trans IntervalIndex.maxLoad_le⟩

theorem obligations_valid (exact : c.index.Exact) (sized : c.AllSized) :
    ∀ u ∈ c.obligations n, Usage.Valid u ∧ u.2.val ≤ indexSaturation := by
  intro u mem
  rcases List.mem_append.mp mem with indexed | stale
  · obtain ⟨e, listed, rfl⟩ := List.mem_map.mp indexed
    exact entriesOn_valid exact e (List.mem_filter.mp listed).1
  · exact staleUsages_valid sized u stale

/-- The scan reaches no more than there is. -/
theorem reached_le (exact : c.index.Exact) (sized : c.AllSized) (t : Int) :
    loadAt (c.reachedUsages n) t ≤ loadAt (c.obligations n) t := by
  have part : (c.reachedUsages n).Sublist (c.obligations n) :=
    (((List.take_sublist _ _).filter _).map _).append_right _
  exact loadAt_sublist part (fun u hu => (obligations_valid exact sized u hu).1) t

/-- **Detection is exact where one part alone is too much.** A detection that succeeds leaves an
emergency exactly when the obligations exceed the ceiling together, closes one only when they do
not, and measures the peak that a resolution stops at, if and only if, whenever together they exceed
the ceiling, those in the index or those on generations that are gone do so alone, and what the scan
of a resolution reaches has the peak of all of them. -/
theorem detection_exact {entry : CapacityEntry} {now : Timestamp} (built : c.index.Built)
    (sized : c.AllSized) (stated : entry.capacity.Sized) (known : c.ledger[n]? = some entry)
    (done : (detectOvercommit n now).exec c = (.ok (), d)) :
    ((d.emergency n = true ↔ ∃ t, entry.ceiling.val < loadAt (c.obligations n) t) ∧
      (c.emergency n = true → d.emergency n = false →
        ∀ t, loadAt (c.obligations n) t ≤ entry.ceiling.val) ∧
      ∃ v, IsPeakLoad (c.obligations n) horizon v ∧
        (c.stoppingPeak n).val = min indexSaturation v) ↔
    ((∃ t, entry.ceiling.val < loadAt (c.obligations n) t) →
      (∃ t, entry.ceiling.val < loadAt (c.indexedUsages n) t) ∨
        ∃ t, entry.ceiling.val < loadAt (c.staleUsages n) t) ∧
    ∀ t, ∃ s, min indexSaturation (loadAt (c.obligations n) t) ≤ loadAt (c.reachedUsages n) s := by
  have exact := built.exact
  have valid := fun u hu => (obligations_valid (n := n) exact sized u hu).1
  obtain ⟨nonneg, below⟩ := CapacityEntry.ceiling_range stated
  -- Each part is a part of the whole.
  have indexed : ∀ t, loadAt (c.indexedUsages n) t ≤ loadAt (c.obligations n) t :=
    loadAt_sublist (List.sublist_append_left _ _) valid
  have stale : ∀ t, loadAt (c.staleUsages n) t ≤ loadAt (c.obligations n) t :=
    loadAt_sublist (List.sublist_append_right _ _) valid
  have left : d.emergency n = true ↔ (∃ t, entry.ceiling.val < loadAt (c.indexedUsages n) t) ∨
      ∃ t, entry.ceiling.val < loadAt (c.staleUsages n) t := by
    rw [emergency_detectOvercommit known done, decide_eq_true_iff]
    exact lt_obligationPeak exact sized nonneg below
  have nonempty : horizon.start.val < horizon.stop.val := by decide
  obtain ⟨whole, peak, -⟩ := IntervalIndex.peak_ofUsages valid
    (fun u hu => (obligations_valid exact sized u hu).2) nonempty
  obtain ⟨part, reached, stops⟩ := stoppingPeak_exact (n := n) (entriesOn_valid exact) sized
  have reachedValid : ∀ u ∈ c.reachedUsages n, Usage.Valid u := fun u hu =>
    valid u ((((List.take_sublist _ _).filter _).map _).append_right _ |>.subset hu)
  have most := peak.above valid
  have mostReached := reached.above reachedValid
  have top : ∃ t, loadAt (c.obligations n) t = whole := peak.2.imp fun _ h => h.2.2
  have met : ∃ s, loadAt (c.reachedUsages n) s = part := reached.2.imp fun _ h => h.2.2
  obtain ⟨t, top⟩ := top
  obtain ⟨s, met⟩ := met
  have less : part ≤ whole := met ▸ (reached_le exact sized s).trans (most s)
  constructor
  · rintro ⟨opens, -, v, same, stopped⟩
    have equal : v = whole := IsPeakLoad.unique (List.Perm.refl _) same peak
    refine ⟨fun more => left.mp (opens.mpr more), fun t' => ⟨s, ?_⟩⟩
    calc min indexSaturation (loadAt (c.obligations n) t')
        ≤ min indexSaturation whole := min_le_min_left _ (most t')
      _ = min indexSaturation part := by rw [← equal, ← stopped, stops]
      _ ≤ part := min_le_right _ _
      _ = loadAt (c.reachedUsages n) s := met.symm
  · rintro ⟨alone, reaches⟩
    have opens : d.emergency n = true ↔ ∃ t, entry.ceiling.val < loadAt (c.obligations n) t := by
      refine ⟨fun opened => ?_, fun more => left.mpr (alone more)⟩
      rcases left.mp opened with ⟨t, more⟩ | ⟨t, more⟩
      · exact ⟨t, lt_of_lt_of_le more (indexed t)⟩
      · exact ⟨t, lt_of_lt_of_le more (stale t)⟩
    refine ⟨opens, fun _ closed t => ?_, whole, peak, ?_⟩
    · by_contra more
      rw [opens.mpr ⟨t, not_le.mp more⟩] at closed
      cases closed
    · obtain ⟨s', covers⟩ := reaches t
      rw [top] at covers
      rw [stops]
      exact le_antisymm (min_le_min_left _ less)
        (le_min (min_le_left _ _) (covers.trans (mostReached s')))

/-- The only reservation on a link is in the index, and the scan reaches it. -/
theorem detection_exact_lightlyUsed :
    ∃ d, (detectOvercommit (FixedName.lit "link") 1).exec Sample.lightlyUsed = (.ok (), d) ∧
      (d.emergency (FixedName.lit "link") = true ↔
        ∃ t, (CapacityEntry.ceiling { capacity := Sample.wide }).val <
          loadAt (Sample.lightlyUsed.obligations (FixedName.lit "link")) t) := by
  have valid : Usage.Valid (⟨100, 200⟩, 40) := ⟨by decide, by decide, by decide, by decide⟩
  have sized : Sample.lightlyUsed.AllSized := by
    intro k r stored
    have none : Sample.lightlyUsed.records = ∅ := rfl
    rw [none] at stored
    simp at stored
  obtain ⟨d, done⟩ : ∃ d, (detectOvercommit (FixedName.lit "link") 1).exec Sample.lightlyUsed =
      (.ok (), d) := ⟨_, Op.exec_of_fst (by decide +kernel)⟩
  have all : Sample.lightlyUsed.obligations (FixedName.lit "link") = [(⟨100, 200⟩, 40)] := by
    decide +kernel
  have reached : Sample.lightlyUsed.reachedUsages (FixedName.lit "link") = [(⟨100, 200⟩, 40)] := by
    decide +kernel
  have within : ∀ t, loadAt [((⟨100, 200⟩, 40) : Usage)] t ≤
      (CapacityEntry.ceiling { capacity := Sample.wide }).val := fun t =>
    (loadAt_le_total (by simpa using valid) t).trans (by decide +kernel)
  refine ⟨d, done, ((detection_exact Sample.built_lightlyUsed sized ⟨by decide, by decide⟩
    (by decide +kernel) done).mpr
    ⟨?_, fun t => ⟨t, ?_⟩⟩).1⟩
  · rw [all]
    rintro ⟨t, more⟩
    exact absurd more (not_lt.mpr (within t))
  · rw [all, reached]
    exact min_le_right _ _

end Coordinator

namespace System.Sample

/-- Another policy than that of the claims permits a revalidation. -/
def loose : Action :=
  { event := .request (.ingestPolicy 2
      { name := FixedName.lit "loose", generation := 1, autoRevalidateOnGenerationChange := true }
      (context 1 0)) }

/-- Two reservations overlap, one of them under that policy, and then the resource shrinks. -/
def shrunk : List Action :=
  [opened 0, loose, ingested, created 1 3 20 60 30,
    { event := .request (.create 3 (context 1 21)
        { terms 40 with policy := FixedName.lit "loose" } 31 false []) },
    { event := .request (.ingestCapacity 4
        { id := 12
          generation := 2
          resources := [{ resource with generation := 2, reservableCapacity := 80 }] } []
        (context 1 0)) }]

end System.Sample

open System.Sample in
/-- A reservation of 60 bits per second is bound to a generation of the link that is gone, one of 40
to the present one of 80, and a detection leaves no emergency. -/
theorem parts_within_whole_above :
    ¬ ∀ (as : List Action) (c d : Coordinator) (n : ResourceName) (now : Timestamp)
        (entry : CapacityEntry), System.run as = .up c → c.ledger[n]? = some entry →
      (Coordinator.detectOvercommit n now).exec c = (.ok (), d) →
      (d.emergency n = true ↔ ∃ t, entry.ceiling.val < loadAt (c.obligations n) t) := by
  intro claimed
  obtain ⟨c, up, known, done, closed, more⟩ :
      ∃ c, System.run shrunk = .up c ∧
        (c.ledger[(FixedName.lit "link" : ResourceName)]?).any (fun e => e.ceiling.val = 80) = true ∧
        ((Coordinator.detectOvercommit (FixedName.lit "link") 5).exec c).1 = .ok () ∧
        ((Coordinator.detectOvercommit (FixedName.lit "link") 5).exec c).2.emergency
          (FixedName.lit "link") = false ∧
        80 < loadAt (c.obligations (FixedName.lit "link")) 150 := by
    refine ⟨_, System.eq_up (by decide +kernel), ?_⟩
    decide +kernel
  obtain ⟨entry, there, ceiling⟩ := (Option.any_eq_true _ _).mp known
  have opened := (claimed shrunk c _ _ 5 entry up there (Op.exec_of_fst done)).mpr
    ⟨150, by rw [of_decide_eq_true ceiling]; exact more⟩
  rw [closed] at opened
  cases opened

end Brf
