import Brf.Lib.Signed
import Brf.MoveLaws

/-!
# The windows of a series, exactly

`expand_series` of `src/reservation.cpp` with its signed operations looked at one by one: a check by
division before the loop and two checks in every turn of it are to keep each of them in range.

* `checkedExpandSeries` is `expandSeries` as the source computes it, operation by operation.
* `Expandable first spec bound`: the series exists in exact arithmetic, within the timeline.

Result: `expandSeries_exact`.
-/

namespace Brf

open Brf.Lib

/-! ## Operation by operation -/

/-- `validate_interval`, its subtraction looked at. -/
def checkedValidateInterval (i : Interval) : Checked Error Unit := do
  Checked.lift <| refuse (i.start.val < 0) .invalidInterval "interval start must not be negative"
  Checked.lift <| refuse (maxTimestampNs < i.stop.val) .invalidInterval
    "interval end exceeds the maximum timestamp"
  Checked.lift <| refuse (i.stop.val ≤ i.start.val) .invalidInterval
    "interval must be non-empty under [start, end) semantics"
  let span ← signed 64 (i.stop.val - i.start.val)
  Checked.lift <| refuse (maxReservationSpanNs < span) .invalidInterval
    "interval span exceeds the maximum reservation span"

/-- The loop of `expand_series` from `i` on. -/
def checkedExpandMembers (first : Interval) (period : Duration) (span : Int) :
    Nat → Int → Checked Error (List Interval)
  | 0, _ => pure []
  | remaining + 1, i => do
    let offset ← signed 64 (i * period.val)
    let start ← signed 64 (first.start.val + offset)
    let late ← if maxTimestampNs < start then pure true else do
      let room ← signed 64 (maxTimestampNs - start)
      pure (decide (room < span))
    Checked.lift <| refuse late .overflow "series member interval overflows the fabric timeline"
    let stop ← signed 64 (start + span)
    let member : Interval := ⟨I64.wrap start, I64.wrap stop⟩
    checkedValidateInterval member
    let next ← signed 64 (i + 1)
    let rest ← checkedExpandMembers first period span remaining next
    pure (member :: rest)

/-- `expand_series` of an enabled specification. -/
def checkedExpandSeries (first : Interval) (spec : RecurrenceSpec) (maxMembers : Nat) :
    Checked Error (List Interval) := do
  Checked.lift <| refuse (spec.count.val = 0) .invalidArgument
    "series member count must be non-zero"
  Checked.lift <| refuse (maxMembers < spec.count.val) .resourceExhausted
    "series member count exceeds the policy bound"
  checkedValidateInterval first
  Checked.lift <| refuse (1 < spec.count.val && spec.period.val ≤ 0) .invalidArgument
    "series period must be positive"
  let span ← signed 64 (first.stop.val - first.start.val)
  Checked.lift <| refuse (1 < spec.count.val && spec.period.val < span) .invalidArgument
    "series members must not overlap: the period must be at least the member duration"
  let count : Int := spec.count.val
  let beyond ← if 0 < spec.period.val then do
      let last ← signed 64 (count - 1)
      let room ← signed 64 (maxTimestampNs - first.start.val)
      pure (decide (room / spec.period.val < last))
    else pure false
  Checked.lift <| refuse beyond .overflow "series expansion overflows the fabric timeline"
  checkedExpandMembers first spec.period span spec.count.val 0

/-! ## Intervals -/

/-- An interval is valid exactly if it lies in the timeline and is neither empty nor too long. -/
theorem validateInterval_iff {i : Interval} : validateInterval i = .ok () ↔
    0 ≤ i.start.val ∧ i.stop.val ≤ maxTimestampNs ∧ i.start.val < i.stop.val ∧
      i.stop.val - i.start.val ≤ maxReservationSpanNs := by
  simp [validateInterval, check_bind_eq_ok, refuse_eq_ok]

theorem computes_validateInterval (i : Interval) :
    Computes (checkedValidateInterval i) (validateInterval i) := by
  unfold checkedValidateInterval validateInterval
  refine computes_bind (computes_lift _) fun _ start => ?_
  refine computes_bind (computes_lift _) fun _ stop => ?_
  refine computes_bind (computes_lift _) fun _ order => ?_
  have start := refuse_eq_ok.mp start
  have stop := refuse_eq_ok.mp stop
  have order := refuse_eq_ok.mp order
  simp only [decide_eq_false_iff_not, not_lt, not_le] at start stop order
  have hi := i.stop.hi
  exact computes_bind_ok (computes_signed (fits_64.mpr (by omega))) (computes_lift _)

/-- The member of a series that starts `offset` after the first one. -/
def Interval.shifted (i : Interval) (offset : Int) : Interval :=
  ⟨I64.wrap (i.start.val + offset), I64.wrap (i.stop.val + offset)⟩

theorem Interval.shifted_val {i : Interval} {offset : Int} (start : 0 ≤ i.start.val)
    (order : i.start.val < i.stop.val) (pos : 0 ≤ offset)
    (stop : i.stop.val + offset ≤ maxTimestampNs) :
    (i.shifted offset).start.val = i.start.val + offset ∧
      (i.shifted offset).stop.val = i.stop.val + offset := by
  unfold maxTimestampNs at stop
  exact ⟨I64.val_wrap_of_range (by omega) (by omega), I64.val_wrap_of_range (by omega) (by omega)⟩

/-- A member within the timeline is as valid as the first one. -/
theorem validateInterval_shifted {i : Interval} {offset : Int} (valid : validateInterval i = .ok ())
    (pos : 0 ≤ offset) (stop : i.stop.val + offset ≤ maxTimestampNs) :
    validateInterval (i.shifted offset) = .ok () := by
  obtain ⟨start, -, order, span⟩ := validateInterval_iff.mp valid
  obtain ⟨first, last⟩ := Interval.shifted_val start order pos stop
  rw [validateInterval_iff, first, last]
  omega

/-! ## The loop -/

/-- The members `i`, `i + 1`, … of a series. -/
def membersFrom (first : Interval) (period : Int) (i n : Nat) : List Interval :=
  (List.range' i n).map fun j : Nat => first.shifted ((j : Int) * period)

/-- In exact arithmetic, the members from `i` on lie in the timeline. -/
def RoomFrom (first : Interval) (period : Int) (i n : Nat) : Prop :=
  ∀ j, i ≤ j → j < i + n → first.stop.val + j * period ≤ maxTimestampNs

section

variable {first : Interval} {period : Duration}

theorem membersFrom_succ (first : Interval) (period : Int) (i n : Nat) :
    membersFrom first period i (n + 1) =
      first.shifted (i * period) :: membersFrom first period (i + 1) n := by
  simp [membersFrom, List.range'_succ]

theorem roomFrom_succ {period : Int} {i n : Nat} : RoomFrom first period i (n + 1) ↔
    first.stop.val + i * period ≤ maxTimestampNs ∧ RoomFrom first period (i + 1) n := by
  constructor
  · intro room
    exact ⟨room i (le_refl i) (by omega), fun j lo hi => room j (by omega) (by omega)⟩
  · rintro ⟨here, later⟩ j lo hi
    by_cases same : j = i
    · rw [same]
      exact here
    · exact later j (by omega) (by omega)

/-- **The loop** succeeds exactly if the members lie in the timeline, and then returns them. -/
theorem expandMembers_eq_ok (valid : validateInterval first = .ok ()) :
    ∀ {n i : Nat} {out : List Interval}, (∀ j < i + n, 0 ≤ (j : Int) * period.val) →
      (expandMembers first period (first.stop.val - first.start.val) n i = .ok out ↔
        RoomFrom first period.val i n ∧ out = membersFrom first period.val i n)
  | 0, i, out, _ => by
    simp only [expandMembers, membersFrom, RoomFrom, List.range'_zero,
      Except.ok.injEq, eq_comm]
    exact ⟨fun same => ⟨fun j lo hi => by omega, same⟩, And.right⟩
  | n + 1, i, out, sign => by
    obtain ⟨start, -, order, span⟩ := validateInterval_iff.mp valid
    have pos := sign i (by omega)
    have place : (⟨I64.wrap (first.start.val + i * period.val),
        I64.wrap (first.start.val + i * period.val + (first.stop.val - first.start.val))⟩ :
          Interval) = first.shifted (i * period.val) := by
      unfold Interval.shifted
      congr 2
      omega
    have fits : (decide (maxTimestampNs < first.start.val + i * period.val) ||
        decide (maxTimestampNs - (first.start.val + i * period.val) <
          first.stop.val - first.start.val)) = false ↔
        first.stop.val + i * period.val ≤ maxTimestampNs := by
      simp only [Bool.or_eq_false_iff, decide_eq_false_iff_not]
      omega
    unfold expandMembers
    dsimp only
    rw [check_bind_eq_ok, refuse_eq_ok, fits, place, roomFrom_succ, membersFrom_succ]
    by_cases room : first.stop.val + i * period.val ≤ maxTimestampNs
    · have rest := fun later => @expandMembers_eq_ok valid n (i + 1) later
        fun j hj => sign j (by omega)
      rw [validateInterval_shifted valid pos room]
      simp only [room, true_and, Result.bind_eq_ok]
      constructor
      · rintro ⟨-, later, run, same⟩
        obtain ⟨there, rfl⟩ := (rest later).mp run
        exact ⟨there, (Except.ok.inj same).symm⟩
      · rintro ⟨there, rfl⟩
        exact ⟨(), _, (rest _).mpr ⟨there, rfl⟩, rfl⟩
    · simp only [room, false_and]

/-- **No operation of the loop overflows**, if the division before it has let the series through. -/
theorem computes_expandMembers (valid : validateInterval first = .ok ()) :
    ∀ {n i : Nat}, i + n ≤ 4294967296 →
      (∀ j < i + n, 0 ≤ (j : Int) * period.val ∧
        j * period.val ≤ maxTimestampNs - first.start.val) →
      Computes (checkedExpandMembers first period (first.stop.val - first.start.val) n i)
        (expandMembers first period (first.stop.val - first.start.val) n i)
  | 0, i, _, _ => computes_pure []
  | n + 1, i, short, near => by
    obtain ⟨start, stop, order, -⟩ := validateInterval_iff.mp valid
    obtain ⟨pos, reach⟩ := near i (by omega)
    unfold maxTimestampNs at stop reach
    unfold checkedExpandMembers expandMembers
    refine computes_bind_ok (computes_signed (fits_64.mpr (by omega))) ?_
    refine computes_bind_ok (computes_signed (fits_64.mpr (by omega))) ?_
    have inside : ¬ maxTimestampNs < first.start.val + i * period.val := by
      unfold maxTimestampNs
      omega
    simp only [inside, if_false, decide_false, Bool.false_or, pure_bind]
    refine computes_bind_ok (computes_signed (fits_64.mpr ?_)) ?_
    · unfold maxTimestampNs
      omega
    refine computes_bind (computes_lift _) fun _ _ => ?_
    refine computes_bind_ok (computes_signed (fits_64.mpr (by omega))) ?_
    refine computes_bind (computes_validateInterval _) fun _ _ => ?_
    refine computes_bind_ok (computes_signed (fits_64.mpr (by omega))) ?_
    have rest := computes_expandMembers (n := n) (i := i + 1) valid (by omega)
      fun j hj => near j (by omega)
    exact computes_bind rest fun _ _ => computes_pure _

end

/-! ## The series -/

/-- The series exists: its bound allows it, and in exact arithmetic its members do not overlap and
lie in the timeline. -/
structure Expandable (first : Interval) (spec : RecurrenceSpec) (bound : Nat) : Prop where
  some : 1 ≤ spec.count.val
  bounded : spec.count.val ≤ bound
  valid : validateInterval first = .ok ()
  apart : spec.count.val = 1 ∨
    first.stop.val - first.start.val ≤ spec.period.val ∧
      first.stop.val + ((spec.count.val : Int) - 1) * spec.period.val ≤ maxTimestampNs

section

variable {first : Interval} {spec : RecurrenceSpec} {bound : Nat}

/-- The offsets of the members, if there is more than one only for a positive period. -/
theorem offset_nonneg {period : Int} {n : Nat} (sign : n ≤ 1 ∨ 0 ≤ period) :
    ∀ j < n, 0 ≤ (j : Int) * period := by
  intro j hj
  rcases sign with one | pos
  · obtain rfl : j = 0 := by omega
    simp
  · exact Int.mul_nonneg (by omega) pos

/-- The last member lies furthest. -/
theorem offset_le_last {period : Int} {n j : Nat} (pos : 0 ≤ period) (h : j < n) :
    (j : Int) * period ≤ ((n : Int) - 1) * period :=
  Int.mul_le_mul_of_nonneg_right (by omega) pos

theorem roomFrom_iff_last {n : Nat} (some : 1 ≤ n) {period : Int} (pos : 0 ≤ period) :
    RoomFrom first period 0 n ↔ first.stop.val + ((n : Int) - 1) * period ≤ maxTimestampNs := by
  constructor
  · intro room
    have last := room (n - 1) (Nat.zero_le _) (by omega)
    rwa [Nat.cast_sub some, Nat.cast_one] at last
  · intro last j _ hj
    have := offset_le_last (n := n) pos (by omega : j < n)
    omega

/-- The division before the loop only refuses what the loop would refuse. -/
theorem division_of_room {n : Nat} {period : Int} (valid : validateInterval first = .ok ())
    (pos : 0 < period) (last : first.stop.val + ((n : Int) - 1) * period ≤ maxTimestampNs) :
    (n : Int) - 1 ≤ (maxTimestampNs - first.start.val) / period := by
  obtain ⟨-, -, order, -⟩ := validateInterval_iff.mp valid
  exact Int.le_ediv_of_mul_le pos (by omega)

/-- **The series** is the list of its members, if it exists. -/
theorem expandSeries_eq_ok (enabled : spec.enabled = true) {out : List Interval} :
    expandSeries first spec bound = .ok out ↔
      Expandable first spec bound ∧ out = membersFrom first spec.period.val 0 spec.count.val := by
  unfold expandSeries
  rw [enabled]
  simp only [Bool.not_true, Bool.false_eq_true, if_false, check_bind_eq_ok, refuse_eq_ok,
    decide_eq_false_iff_not, not_lt, Bool.and_eq_false_iff, not_le]
  constructor
  · rintro ⟨some, bounded, valid, positive, apart, near, run⟩
    obtain ⟨-, -, order, -⟩ := validateInterval_iff.mp valid
    have sign : spec.count.val ≤ 1 ∨ 0 ≤ spec.period.val := by omega
    obtain ⟨room, same⟩ := (expandMembers_eq_ok valid fun j hj =>
      offset_nonneg sign j (by omega)).mp run
    refine ⟨⟨by omega, bounded, valid, ?_⟩, same⟩
    by_cases one : spec.count.val = 1
    · exact .inl one
    · have pos : 0 ≤ spec.period.val := by omega
      exact .inr ⟨by omega, (roomFrom_iff_last (by omega) pos).mp room⟩
  · rintro ⟨⟨some, bounded, valid, apart⟩, same⟩
    obtain ⟨-, stop, order, -⟩ := validateInterval_iff.mp valid
    have sign : spec.count.val ≤ 1 ∨ 0 ≤ spec.period.val := by omega
    have room : RoomFrom first spec.period.val 0 spec.count.val := by
      by_cases one : spec.count.val = 1
      · intro j _ hj
        obtain rfl : j = 0 := by omega
        simpa using stop
      · have both := apart.resolve_left one
        exact (roomFrom_iff_last some (by omega)).mpr both.2
    refine ⟨by omega, bounded, valid, by omega, by omega, ?_,
      (expandMembers_eq_ok valid fun j hj => offset_nonneg sign j (by omega)).mpr ⟨room, same⟩⟩
    by_cases pos : 0 < spec.period.val
    · right
      exact division_of_room valid pos ((roomFrom_iff_last some (by omega)).mp room)
    · exact .inl (not_lt.mp pos)

theorem computes_expandSeries (enabled : spec.enabled = true) :
    Computes (checkedExpandSeries first spec bound) (expandSeries first spec bound) := by
  have small := spec.count.isLt
  unfold checkedExpandSeries expandSeries
  rw [enabled]
  simp only [Bool.not_true, Bool.false_eq_true, if_false]
  refine computes_bind (computes_lift _) fun _ _ => ?_
  refine computes_bind (computes_lift _) fun _ _ => ?_
  refine computes_bind (computes_validateInterval first) fun _ valid => ?_
  obtain ⟨start, stop, order, -⟩ := validateInterval_iff.mp valid
  refine computes_bind (computes_lift _) fun _ positive => ?_
  have lo := first.stop.lo
  have hi := first.stop.hi
  refine computes_bind_ok (computes_signed (fits_64.mpr (by omega))) ?_
  refine computes_bind (computes_lift _) fun _ _ => ?_
  have positive := refuse_eq_ok.mp positive
  simp only [Bool.and_eq_false_iff, decide_eq_false_iff_not, not_lt, not_le] at positive
  by_cases pos : 0 < spec.period.val
  · have room := stop
    unfold maxTimestampNs at room
    simp only [pos, if_true, decide_true, Bool.true_and, pure_bind]
    refine computes_bind_ok (computes_signed (fits_64.mpr (by omega))) ?_
    refine computes_bind_ok (computes_signed (fits_64.mpr ?_)) ?_
    · unfold maxTimestampNs
      omega
    refine computes_bind (computes_lift _) fun _ near => ?_
    have near := refuse_eq_ok.mp near
    simp only [decide_eq_false_iff_not, not_lt] at near
    refine computes_expandMembers (i := 0) valid (by omega) fun j hj => ?_
    refine ⟨offset_nonneg (.inr (le_of_lt pos)) j hj, ?_⟩
    calc (j : Int) * spec.period.val
        ≤ ((spec.count.val : Int) - 1) * spec.period.val := offset_le_last (le_of_lt pos) (by omega)
      _ ≤ maxTimestampNs - first.start.val := (Int.le_ediv_iff_mul_le pos).mp near
  · simp only [pos, if_false, decide_false, Bool.false_and, pure_bind]
    refine computes_bind (computes_lift _) fun _ _ => ?_
    refine computes_expandMembers (i := 0) valid (by omega) fun j hj => ?_
    obtain rfl : j = 0 := by omega
    simp only [Nat.cast_zero, Int.zero_mul, le_refl, true_and]
    omega

/-- A member of a series that exists is the first interval, moved. -/
theorem Expandable.member (h : Expandable first spec bound) {i : Nat} (hi : i < spec.count.val) :
    (first.shifted (i * spec.period.val)).start.val = first.start.val + i * spec.period.val ∧
      (first.shifted (i * spec.period.val)).stop.val = first.stop.val + i * spec.period.val ∧
      validateInterval (first.shifted (i * spec.period.val)) = .ok () := by
  obtain ⟨start, stop, order, -⟩ := validateInterval_iff.mp h.valid
  have room : 0 ≤ (i : Int) * spec.period.val ∧
      first.stop.val + i * spec.period.val ≤ maxTimestampNs := by
    by_cases one : spec.count.val = 1
    · obtain rfl : i = 0 := by omega
      simpa using stop
    · obtain ⟨apart, last⟩ := h.apart.resolve_left one
      have pos : 0 ≤ spec.period.val := by omega
      exact ⟨Int.mul_nonneg (by omega) pos, (roomFrom_iff_last h.some pos).mpr last i (by omega)
        (by omega)⟩
  have vals := Interval.shifted_val start order room.1 room.2
  exact ⟨vals.1, vals.2, validateInterval_shifted h.valid room.1 room.2⟩

/-- Members that keep the period apart do not overlap. -/
theorem Expandable.disjoint (h : Expandable first spec bound) {i j : Nat} (lt : i < j)
    (hj : j < spec.count.val) : (first.shifted (i * spec.period.val)).overlaps
      (first.shifted (j * spec.period.val)) = false := by
  obtain ⟨-, -, order, -⟩ := validateInterval_iff.mp h.valid
  obtain ⟨apart, -⟩ := h.apart.resolve_left (by omega)
  have before : ((i : Int) + 1) * spec.period.val ≤ j * spec.period.val :=
    Int.mul_le_mul_of_nonneg_right (by omega) (by omega)
  have step : ((i : Int) + 1) * spec.period.val = i * spec.period.val + spec.period.val := by
    rw [Int.add_mul, Int.one_mul]
  have hi := (h.member (by omega : i < spec.count.val)).2.1
  have hj := (h.member hj).1
  simp only [Interval.overlaps, Bool.and_eq_false_iff, decide_eq_false_iff_not, not_lt]
  right
  show I64.val _ ≤ I64.val _
  omega

end

/-- **Series expansion is exact and safe.** No signed operation of `expand_series` overflows, it
succeeds exactly if the series exists, and then its members are the first interval moved by the
multiples of the period: as many as asked for, valid, and disjoint. -/
theorem expandSeries_exact (first : Interval) (spec : RecurrenceSpec) (bound : Nat)
    (enabled : spec.enabled = true) :
    Computes (checkedExpandSeries first spec bound) (expandSeries first spec bound) ∧
    ((∃ out, expandSeries first spec bound = .ok out) ↔ Expandable first spec bound) ∧
    ∀ out, expandSeries first spec bound = .ok out →
      out.length = spec.count.val ∧
      (∀ i, ∀ h : i < out.length,
        out[i].start.val = first.start.val + i * spec.period.val ∧
        out[i].stop.val = first.stop.val + i * spec.period.val ∧
        validateInterval out[i] = .ok ()) ∧
      out.Pairwise fun a b => a.overlaps b = false := by
  refine ⟨computes_expandSeries enabled, ?_, ?_⟩
  · constructor
    · rintro ⟨out, run⟩
      exact ((expandSeries_eq_ok enabled).mp run).1
    · intro h
      exact ⟨_, (expandSeries_eq_ok enabled).mpr ⟨h, rfl⟩⟩
  · intro out run
    obtain ⟨h, rfl⟩ := (expandSeries_eq_ok enabled).mp run
    have length : (membersFrom first spec.period.val 0 spec.count.val).length = spec.count.val := by
      simp [membersFrom]
    refine ⟨length, fun i hi => ?_, ?_⟩
    · simpa [membersFrom] using h.member (length ▸ hi)
    · rw [membersFrom, List.pairwise_map]
      refine List.Pairwise.imp_of_mem (fun {i j} _ hj lt => ?_) List.pairwise_lt_range'
      exact h.disjoint lt (by simpa using hj)

/-- A day that returns every week, three times. -/
theorem expandSeries_weekly :
    (∃ out, expandSeries ⟨I64.wrap 0, I64.wrap 86400000000000⟩
        ⟨true, I64.wrap 604800000000000, 3⟩ 8 = .ok out) ∧
      Computes (checkedExpandSeries ⟨I64.wrap 0, I64.wrap 86400000000000⟩
        ⟨true, I64.wrap 604800000000000, 3⟩ 8)
        (expandSeries ⟨I64.wrap 0, I64.wrap 86400000000000⟩
          ⟨true, I64.wrap 604800000000000, 3⟩ 8) := by
  have exact := expandSeries_exact ⟨I64.wrap 0, I64.wrap 86400000000000⟩
    ⟨true, I64.wrap 604800000000000, 3⟩ 8 rfl
  exact ⟨exact.2.1.mpr ⟨by decide, by decide, by decide, .inr (by decide)⟩, exact.1⟩

end Brf
