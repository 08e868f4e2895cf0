import Brf.Exactness
import Brf.Reachable

/-!
# What admission decides

`assess_locked` against the sum of the entries of the index.

* `Coordinator.Unobstructed` is everything an admission asks for but the amount, and
  `Coordinator.ShortAt` says that the amount does not fit on a resource.
* `Scan.Clear` says that the loop over the bound resources has raised no flag, and `Covers` what the
  evidence on one resource must say for that.

The source adds the requested amount to the peak with an addition that stops at
`kMaxBandwidthBps`, and compares the result with the limit of the resource. So a limit of that
height is never exceeded.

Results: `committable_iff` says exactly what is committable, and `admission_exact` when that is what
fits.
-/

namespace Brf

open Brf.Lib

/-! ## The requirements of an admission -/

/-- A policy whose bandwidths pass `validate_policy`. -/
structure PolicyRecord.Sized (p : PolicyRecord) : Prop where
  headroom : 0 ≤ p.policyHeadroom.val ∧ p.policyHeadroom.val ≤ maxBandwidthBps
  allowance : 0 ≤ p.overcommitAllowance.val ∧ p.overcommitAllowance.val ≤ maxBandwidthBps

/-- Terms whose window is not empty and whose bandwidths pass `validate_terms`. -/
structure ReservationTerms.Sized (t : ReservationTerms) : Prop where
  window : t.interval.start.val < t.interval.stop.val
  amount : 0 < t.amount.val ∧ t.amount.val ≤ maxBandwidthBps
  headroom : 0 ≤ t.headroomRequirement.val ∧ t.headroomRequirement.val ≤ maxBandwidthBps

/-- A capacity whose bandwidths pass the checks of the ledger. -/
structure ResourceCapacity.Sized (c : ResourceCapacity) : Prop where
  reservable : 0 < c.reservableCapacity.val ∧ c.reservableCapacity.val ≤ maxBandwidthBps
  headroom : 0 ≤ c.protectedHeadroom.val ∧ c.protectedHeadroom.val ≤ maxBandwidthBps

/-- What may be occupied of a resource under the terms: the reservable capacity less the headrooms,
and the overcommit allowance where the policy has one. -/
def admissionLimit (capacity : ResourceCapacity) (policy : PolicyRecord)
    (terms : ReservationTerms) : Int :=
  max 0 (capacity.reservableCapacity.val - capacity.protectedHeadroom.val -
    policy.policyHeadroom.val - terms.headroomRequirement.val) +
      if policy.allowOvercommit then policy.overcommitAllowance.val else 0

namespace Coordinator

/-- The resource is in the ledger, not withdrawn, and at the bound generation. -/
def Provides (c : Coordinator) (ref : ResourceRef) (capacity : ResourceCapacity) : Prop :=
  ∃ entry, c.ledger[ref.resource]? = some entry ∧ entry.withdrawn = false ∧
    entry.capacity = capacity ∧ capacity.generation = ref.generation

/-- Everything an admission asks for but the amount. -/
structure Unobstructed (c : Coordinator) (terms : ReservationTerms) (binding : ResolvedBinding)
    (policy : PolicyRecord) : Prop where
  path : terms.bindingKind = .path → ∃ entry, c.paths[terms.path]? = some entry ∧
    entry.retired = false ∧ entry.path.generation = binding.pathGeneration
  current : ∀ ref ∈ binding.resources, ∃ capacity, c.Provides ref capacity
  open' : ∀ ref ∈ binding.resources, ∀ capacity, c.Provides ref capacity →
    ∀ w ∈ capacity.maintenance, w.interval.overlaps terms.interval = false
  calm : policy.allowOvercommit = false →
    ∀ ref ∈ binding.resources, c.emergency ref.resource = false

/-- At some instant of the window the entries of the resource and the requested amount together
exceed its limit. -/
def ShortAt (c : Coordinator) (terms : ReservationTerms) (policy : PolicyRecord)
    (ref : ResourceRef) (capacity : ResourceCapacity) : Prop :=
  ∃ t, terms.interval.start.val ≤ t ∧ t < terms.interval.stop.val ∧
    admissionLimit capacity policy terms < c.index.load ref.resource t + terms.amount.val

/-! ## The loop over the bound resources -/

/-- No flag is raised. -/
structure Scan.Clear (scan : Scan) : Prop where
  current : scan.stale = false
  permitted : scan.policyRejected = false
  calm : scan.emergency = false
  covered : scan.shortResources = []

@[simp] theorem Scan.clear_problem {scan : Scan} {text : Text} :
    (scan.problem text).Clear ↔ scan.Clear := by
  unfold Scan.problem
  split
  · exact ⟨fun ⟨a, b, d, e⟩ => ⟨a, b, d, e⟩, fun ⟨a, b, d, e⟩ => ⟨a, b, d, e⟩⟩
  · exact Iff.rfl

/-- What one evidence must say to raise no flag. -/
structure Covers (policy : PolicyRecord) (capacity : ResourceCapacity) (delta : CapabilityDelta) :
    Prop where
  calm : (delta.overcommitEmergency && !policy.allowOvercommit) = false
  open' : capacity.maintenanceCovers delta.window = none
  within : delta.committedPeakAfter ≤ delta.committableCeiling ∨
    policy.allowOvercommit = true ∧ delta.committedPeakAfter.val ≤
      delta.committableCeiling.val + policy.overcommitAllowance.val

theorem Scan.clear_addDelta {scan : Scan} {policy : PolicyRecord} {capacity : ResourceCapacity}
    {delta : CapabilityDelta} :
    (scan.addDelta policy capacity delta).Clear ↔ scan.Clear ∧ Covers policy capacity delta := by
  unfold Scan.addDelta
  dsimp only
  generalize quiet : (delta.overcommitEmergency && !policy.allowOvercommit) = emergency
  have within : (decide (delta.committedPeakAfter ≤ delta.committableCeiling) ||
      (policy.allowOvercommit && decide (delta.committedPeakAfter.val ≤
        delta.committableCeiling.val + policy.overcommitAllowance.val))) = true ↔
      (delta.committedPeakAfter ≤ delta.committableCeiling ∨ policy.allowOvercommit = true ∧
        delta.committedPeakAfter.val ≤
          delta.committableCeiling.val + policy.overcommitAllowance.val) := by
    simp only [Bool.or_eq_true, Bool.and_eq_true, decide_eq_true_eq]
  generalize (decide (delta.committedPeakAfter ≤ delta.committableCeiling) || _) = covered at within
  cases emergency with
  | true =>
    refine iff_of_false (fun clear => ?_) fun both => absurd both.2.calm (by simp [quiet])
    cases closed : capacity.maintenanceCovers delta.window with
    | none =>
      rw [closed] at clear
      exact Bool.noConfusion clear.calm
    | some window =>
      rw [closed] at clear
      exact Bool.noConfusion clear.permitted
  | false =>
    cases closed : capacity.maintenanceCovers delta.window with
    | some window =>
      exact iff_of_false (fun clear => Bool.noConfusion clear.permitted) fun both =>
        absurd both.2.open' (by simp [closed])
    | none =>
      cases covered with
      | true =>
        exact ⟨fun clear => ⟨⟨clear.current, clear.permitted, clear.calm, clear.covered⟩,
            quiet, closed, within.mp rfl⟩,
          fun both => ⟨both.1.current, both.1.permitted, both.1.calm, both.1.covered⟩⟩
      | false =>
        refine iff_of_false (fun clear => ?_) fun both =>
          Bool.noConfusion (within.mpr both.2.within)
        have short := clear.covered
        simp at short

/-- A resource is at the bound generation, and its evidence raises no flag. -/
def Accepts (c : Coordinator) (terms : ReservationTerms) (policy : PolicyRecord)
    (ref : ResourceRef) : Prop :=
  ∃ capacity, c.Provides ref capacity ∧
    Covers policy capacity (c.capacityDelta terms policy ref capacity)

variable {c : Coordinator} {terms : ReservationTerms} {binding : ResolvedBinding}
  {policy : PolicyRecord}

theorem Provides.unique {ref : ResourceRef} {a b : ResourceCapacity} (ha : c.Provides ref a)
    (hb : c.Provides ref b) : a = b := by
  obtain ⟨entry, there, -, rfl, -⟩ := ha
  obtain ⟨entry', there', -, rfl, -⟩ := hb
  rw [there'] at there
  rw [Option.some.inj there]

theorem clear_scanResource {scan : Scan} {ref : ResourceRef} :
    (c.scanResource terms policy scan ref).Clear ↔
      scan.Clear ∧ c.Accepts terms policy ref := by
  have stale : ∀ {delta : CapabilityDelta} {reason : ApplicabilityReason} {problem : Text},
      ¬ (scan.staleResource delta reason problem).Clear := fun clear =>
    Bool.noConfusion clear.current
  unfold scanResource
  dsimp only
  cases there : c.ledger[ref.resource]?.filter fun entry => !entry.withdrawn with
  | none =>
    refine iff_of_false stale ?_
    rintro ⟨-, -, ⟨entry, found, live, -⟩, -⟩
    rw [found, Option.filter_some, live] at there
    exact absurd there (by simp)
  | some entry =>
    obtain ⟨found, live⟩ := Option.filter_eq_some_iff.mp there
    have live : entry.withdrawn = false := by simpa using live
    dsimp only
    split
    · rename_i moved
      refine iff_of_false stale ?_
      rintro ⟨-, -, ⟨entry', found', -, rfl, current⟩, -⟩
      rw [found] at found'
      rw [Option.some.inj found'] at moved
      exact moved current
    · rename_i current
      rw [Scan.clear_addDelta]
      have provides : c.Provides ref entry.capacity :=
        ⟨entry, found, live, rfl, not_not.mp current⟩
      refine and_congr_right fun _ => ⟨fun covers => ⟨_, provides, covers⟩, ?_⟩
      rintro ⟨capacity, provides', covers⟩
      rw [provides.unique provides']
      exact covers

theorem clear_scan (refs : List ResourceRef) (scan : Scan) :
    (refs.foldl (c.scanResource terms policy) scan).Clear ↔
      scan.Clear ∧ ∀ ref ∈ refs, c.Accepts terms policy ref := by
  induction refs generalizing scan with
  | nil => simp
  | cons ref refs ih =>
    rw [List.foldl_cons, ih, clear_scanResource, List.forall_mem_cons, and_assoc]

/-- What is committable: nothing raises a flag. -/
theorem committable_iff_accepts :
    (c.assess terms binding policy).outcome = .committable ↔
      c.stalePath terms binding = none ∧
        ∀ ref ∈ binding.resources, c.Accepts terms policy ref := by
  have blank : Scan.Clear { firstProblem := (c.stalePath terms binding).getD [] } :=
    ⟨rfl, rfl, rfl, rfl⟩
  have scanned : (binding.resources.foldl (c.scanResource terms policy)
      { firstProblem := (c.stalePath terms binding).getD [] }).Clear ↔ _ :=
    clear_scan binding.resources _
  rw [and_iff_right blank] at scanned
  rw [← scanned]
  unfold assess
  dsimp only
  generalize binding.resources.foldl _ _ = scan
  cases c.stalePath terms binding with
  | some problem => simp
  | none =>
    rw [if_neg (by simp), and_iff_right rfl]
    split_ifs with stale rejected emergency short
    · exact ⟨fun no => absurd no (by decide), fun clear => absurd stale (by simp [clear.current])⟩
    · exact ⟨fun no => absurd no (by decide),
        fun clear => absurd rejected (by simp [clear.permitted])⟩
    · exact ⟨fun no => absurd no (by decide), fun clear => absurd emergency (by simp [clear.calm])⟩
    · exact ⟨fun no => absurd no (by decide), fun clear => absurd clear.covered short⟩
    · exact ⟨fun _ => ⟨by simpa using stale, by simpa using rejected, by simpa using emergency,
        not_not.mp short⟩, fun _ => rfl⟩

/-! ## The amount -/

/-- The ceiling of the evidence, where nothing overflows. -/
theorem val_assessedCeiling {capacity : ResourceCapacity} (fits : capacity.Sized)
    (stated : policy.Sized) (asked : terms.Sized) :
    (assessedCeiling capacity policy terms).val =
      max 0 (capacity.reservableCapacity.val - capacity.protectedHeadroom.val -
        policy.policyHeadroom.val - terms.headroomRequirement.val) := by
  have reservable := fits.reservable
  have «protected» := fits.headroom
  have headroom := stated.headroom
  have extra := asked.headroom
  unfold maxBandwidthBps at *
  unfold assessedCeiling
  dsimp only
  rw [I64.val_wrap_of_range (by omega) (by omega)]
  omega

/-- The bounded sum of the peak and the amount. -/
theorem val_saturatingAdd {peak amount : Bandwidth} (nonneg : 0 ≤ peak.val)
    (positive : 0 < amount.val ∧ amount.val ≤ maxBandwidthBps) :
    (saturatingAdd peak amount).val = min (peak.val + amount.val) maxBandwidthBps := by
  unfold saturatingAdd
  split_ifs with above
  · rw [val_wrap_max]
    omega
  · unfold maxBandwidthBps at *
    rw [I64.val_wrap_of_range (by omega) (by omega)]
    omega

/-- The amount fits on the resource, if the limit lies below the bound of the addition. -/
theorem within_iff (exact : c.index.Exact) {capacity : ResourceCapacity} (fits : capacity.Sized)
    (stated : policy.Sized) (asked : terms.Sized) {ref : ResourceRef} :
    ((c.capacityDelta terms policy ref capacity).committedPeakAfter ≤
        (c.capacityDelta terms policy ref capacity).committableCeiling ∨
      policy.allowOvercommit = true ∧
        (c.capacityDelta terms policy ref capacity).committedPeakAfter.val ≤
          (c.capacityDelta terms policy ref capacity).committableCeiling.val +
            policy.overcommitAllowance.val) ↔
      (c.ShortAt terms policy ref capacity →
        maxBandwidthBps ≤ admissionLimit capacity policy terms) := by
  have peak := exact.peakCombined ref.resource asked.window
  have nonneg : 0 ≤ (c.index.peakCombined ref.resource terms.interval).val :=
    exact.peakCombined_nonneg ref.resource terms.interval
  have ceiling := val_assessedCeiling fits stated asked
  have after := val_saturatingAdd nonneg asked.amount
  have allowance := stated.allowance.1
  have short : c.ShortAt terms policy ref capacity ↔ admissionLimit capacity policy terms <
      (c.index.peakCombined ref.resource terms.interval).val + terms.amount.val := by
    obtain ⟨above, top, since, before, met⟩ := peak
    constructor
    · rintro ⟨t, since, before, more⟩
      have below := above t since before
      unfold CapacityIndex.load at more
      omega
    · intro more
      refine ⟨top, since, before, ?_⟩
      unfold CapacityIndex.load
      omega
  have order : ∀ a b : Bandwidth, a ≤ b ↔ a.val ≤ b.val := fun _ _ => Iff.rfl
  change saturatingAdd _ _ ≤ assessedCeiling _ _ _ ∨ _ ∧ (saturatingAdd _ _).val ≤
    (assessedCeiling _ _ _).val + _ ↔ _
  rw [short, order, ceiling, after]
  unfold admissionLimit
  cases policy.allowOvercommit
  · simp only [Bool.false_eq_true, false_and, or_false, if_false]
    omega
  · simp only [true_and, if_true]
    omega

theorem maintenanceCovers_eq_none {capacity : ResourceCapacity} {window : Interval} :
    capacity.maintenanceCovers window = none ↔
      ∀ w ∈ capacity.maintenance, w.interval.overlaps window = false := by
  simp [ResourceCapacity.maintenanceCovers]

theorem stalePath_eq_none :
    c.stalePath terms binding = none ↔ (terms.bindingKind = .path →
      ∃ entry, c.paths[terms.path]? = some entry ∧ entry.retired = false ∧
        entry.path.generation = binding.pathGeneration) := by
  unfold stalePath
  split
  · rename_i bound
    cases there : c.paths[terms.path]? with
    | none => simp [bound]
    | some entry => 
      dsimp only
      split_ifs with retired moved <;> simp_all
  · rename_i free
    simp [free]

/-- **What is committable**: nothing obstructs the admission, and where the amount does not fit the
limit is at least the bound of the addition. -/
theorem committable_iff (exact : c.index.Exact) (stated : policy.Sized) (asked : terms.Sized)
    (sized : ∀ ref ∈ binding.resources, ∀ capacity, c.Provides ref capacity → capacity.Sized) :
    (c.assess terms binding policy).outcome = .committable ↔
      c.Unobstructed terms binding policy ∧
        ∀ ref ∈ binding.resources, ∀ capacity, c.Provides ref capacity →
          c.ShortAt terms policy ref capacity →
            maxBandwidthBps ≤ admissionLimit capacity policy terms := by
  rw [committable_iff_accepts, stalePath_eq_none]
  constructor
  · rintro ⟨path, accepted⟩
    have covers : ∀ ref ∈ binding.resources, ∀ capacity, c.Provides ref capacity →
        Covers policy capacity (c.capacityDelta terms policy ref capacity) := by
      intro ref mem capacity provides
      obtain ⟨capacity', provides', covers⟩ := accepted ref mem
      rw [provides.unique provides']
      exact covers
    refine ⟨⟨path, fun ref mem => ?_, fun ref mem capacity provides => ?_, fun off ref mem => ?_⟩,
      fun ref mem capacity provides => ?_⟩
    · obtain ⟨capacity, provides, -⟩ := accepted ref mem
      exact ⟨capacity, provides⟩
    · exact maintenanceCovers_eq_none.mp (covers ref mem capacity provides).open'
    · obtain ⟨capacity, provides, covers⟩ := accepted ref mem
      have calm := covers.calm
      rw [off, Bool.not_false, Bool.and_true] at calm
      exact calm
    · exact (within_iff exact (sized ref mem capacity provides) stated asked).mp
        (covers ref mem capacity provides).within
  · rintro ⟨free, within⟩
    refine ⟨free.path, fun ref mem => ?_⟩
    obtain ⟨capacity, provides⟩ := free.current ref mem
    refine ⟨capacity, provides, ?_, maintenanceCovers_eq_none.mpr (free.open' ref mem capacity provides),
      (within_iff exact (sized ref mem capacity provides) stated asked).mpr
        (within ref mem capacity provides)⟩
    change (c.emergency ref.resource && !policy.allowOvercommit) = false
    cases allow : policy.allowOvercommit with
    | true => simp
    | false => rw [free.calm allow ref mem, Bool.false_and]

/-- **Admission is exact below the bound of the addition.** An assessment answers `committable`
exactly when nothing obstructs the admission and the amount fits on every resource, if and only if
an admission that nothing obstructs, and whose amount does not fit everywhere, fails to fit on some
resource whose limit lies below that bound. -/
theorem admission_exact (built : c.index.Built) (stated : policy.Sized) (asked : terms.Sized)
    (sized : ∀ ref ∈ binding.resources, ∀ capacity, c.Provides ref capacity → capacity.Sized) :
    ((c.assess terms binding policy).outcome = .committable ↔
        c.Unobstructed terms binding policy ∧
          ∀ ref ∈ binding.resources, ∀ capacity, c.Provides ref capacity →
            ¬ c.ShortAt terms policy ref capacity) ↔
      (c.Unobstructed terms binding policy →
        (∃ ref ∈ binding.resources, ∃ capacity, c.Provides ref capacity ∧
          c.ShortAt terms policy ref capacity) →
        ∃ ref ∈ binding.resources, ∃ capacity, c.Provides ref capacity ∧
          c.ShortAt terms policy ref capacity ∧
            admissionLimit capacity policy terms < maxBandwidthBps) := by
  rw [committable_iff built.exact stated asked sized]
  constructor
  · intro same free ⟨ref, mem, capacity, provides, short⟩
    by_contra none
    refine (same.mp ⟨free, fun ref mem capacity provides short => ?_⟩).2 ref mem capacity provides
      short
    by_contra below
    exact none ⟨ref, mem, capacity, provides, short, not_le.mp below⟩
  · intro cause
    refine and_congr_right fun free => ⟨fun within ref mem capacity provides short => ?_,
      fun fits ref mem capacity provides short => absurd short (fits ref mem capacity provides)⟩
    obtain ⟨ref, mem, capacity, provides, short, below⟩ :=
      cause free ⟨ref, mem, capacity, provides, short⟩
    exact absurd below (not_lt.mpr (within ref mem capacity provides short))

/-! ## A resource at the bound -/

namespace Sample

/-- A link of 1 Pbit/s. -/
def wide : ResourceCapacity :=
  { resource := FixedName.lit "link", generation := 1
    reservableCapacity := I64.wrap maxBandwidthBps }

/-- The binding of the link. -/
def onLink : ResolvedBinding :=
  { kind := .resources, resources := [⟨FixedName.lit "link", 1⟩] }

/-- The fabric has the wide link, and one reservation takes all of it. -/
def filled : List Action :=
  [System.Sample.opened 4,
    { event := .request (.ingestCapacity 2 { id := 11, generation := 1, resources := [wide] } []
        (System.Sample.context 1 0)) },
    System.Sample.created 1 3 21 (I64.wrap maxBandwidthBps) 31]

/-- A coordinator with the wide link and one reservation of 40 bits per second on it. -/
def lightlyUsed : Coordinator :=
  { ledger := (∅ : CapacityLedger).insert (FixedName.lit "link") { capacity := wide }
    index := after CapacityIndex.step {} [.insert
      { id := 31, holderGeneration := 1, resource := FixedName.lit "link"
        interval := ⟨100, 200⟩, amount := 40 }] }

theorem built_lightlyUsed : lightlyUsed.index.Built := by
  have valid : Usage.Valid (⟨100, 200⟩, 40) := ⟨by decide, by decide, by decide, by decide⟩
  have below : ∀ t, loadAt [(⟨100, 200⟩, 40)] t < 2 ^ 62 := fun t =>
    lt_of_le_of_lt (loadAt_le_total (by simpa using valid) t) (by decide)
  exact ⟨[.insert
    { id := 31, holderGeneration := 1, resource := FixedName.lit "link"
      interval := ⟨100, 200⟩, amount := 40 }], ⟨⟨valid, below⟩, trivial⟩, rfl⟩

end Sample

/-- A committable reservation of 60 bits per second more. -/
theorem admission_exact_lightlyUsed :
    ((Sample.lightlyUsed.assess (System.Sample.terms 60) Sample.onLink {}).outcome = .committable ↔
        Sample.lightlyUsed.Unobstructed (System.Sample.terms 60) Sample.onLink {} ∧
          ∀ ref ∈ Sample.onLink.resources, ∀ capacity, Sample.lightlyUsed.Provides ref capacity →
            ¬ Sample.lightlyUsed.ShortAt (System.Sample.terms 60) {} ref capacity) ↔
      (Sample.lightlyUsed.Unobstructed (System.Sample.terms 60) Sample.onLink {} →
        (∃ ref ∈ Sample.onLink.resources, ∃ capacity, Sample.lightlyUsed.Provides ref capacity ∧
          Sample.lightlyUsed.ShortAt (System.Sample.terms 60) {} ref capacity) →
        ∃ ref ∈ Sample.onLink.resources, ∃ capacity, Sample.lightlyUsed.Provides ref capacity ∧
          Sample.lightlyUsed.ShortAt (System.Sample.terms 60) {} ref capacity ∧
            admissionLimit capacity {} (System.Sample.terms 60) < maxBandwidthBps) := by
  refine admission_exact Sample.built_lightlyUsed ⟨by decide, by decide⟩ ⟨by decide, by decide, by decide⟩ ?_
  rintro ref mem capacity ⟨entry, there, -, rfl, -⟩
  obtain rfl : ref = ⟨FixedName.lit "link", 1⟩ := by simpa [Sample.onLink] using mem
  have there : some { capacity := Sample.wide } = some entry := there
  obtain rfl := Option.some.inj there
  exact ⟨by decide, by decide⟩

/-- A resource of 1 Pbit/s, all of it taken, takes more. -/
theorem wide_link_overcommitted :
    ¬ ∀ (actions : List Action) (terms : ReservationTerms) (binding : ResolvedBinding)
        (policy : PolicyRecord), (System.run actions).isUp = true →
      (((System.run actions).coordinator.assess terms binding policy).outcome = .committable ↔
        (System.run actions).coordinator.Unobstructed terms binding policy ∧
          ∀ ref ∈ binding.resources, ∀ capacity,
            (System.run actions).coordinator.Provides ref capacity →
              ¬ (System.run actions).coordinator.ShortAt terms policy ref capacity) := by
  intro claim
  have exact := claim Sample.filled (System.Sample.terms 1) Sample.onLink
    (PolicyRecord.strictDefault (FixedName.lit "default")) (by decide +kernel)
  have fits := (exact.mp (by decide +kernel)).2 ⟨FixedName.lit "link", 1⟩ (by decide) Sample.wide
  have known : (((System.run Sample.filled).coordinator.ledger : CapacityLedger)[
      (FixedName.lit "link" : ResourceName)]?).map (fun e => (e.withdrawn, e.capacity)) =
        some (false, Sample.wide) := by decide +kernel
  obtain ⟨entry, there, same⟩ := Option.map_eq_some_iff.mp known
  obtain ⟨live, capacity⟩ := Prod.ext_iff.mp same
  refine fits ⟨entry, there, live, capacity, rfl⟩ ⟨100, by decide, by decide, ?_⟩
  decide +kernel

end Coordinator

end Brf
