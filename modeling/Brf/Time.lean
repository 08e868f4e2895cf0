import Brf.Identity

/-!
# Instants, intervals and bandwidth

Model of `include/brf/time.hpp`, `validate_interval` of `src/time.cpp`, and the arithmetic of
`include/brf/bandwidth.hpp`.

* `Timestamp`, `Duration` and `Bandwidth` are signed 64-bit quantities (`I64`): nanoseconds and
  bits per second.
* An `Interval` is half-open: `[start, stop)`, where `stop` is the source's `end`.
* Arithmetic that the source performs on `int64_t` without a check goes through `I64.wrap`.

Out of scope: `interval_id_hex`. The spellings of instants and of bandwidth are in `Brf.Spelling`, and
the parser of instants in `Brf.Instants`.
-/

namespace Brf

open Brf.Lib

abbrev Timestamp := I64
abbrev Duration := I64
abbrev Bandwidth := I64

/-- `kNsPerSecond`. -/
def nsPerSecond : Int := 1000000000

/-- `kMaxReservationSpanNs`: 100 years of 366 days. -/
def maxReservationSpanNs : Int := 3162240000000000000

/-- `kMaxTimestampNs`: 2100-01-01T00:00:00Z. -/
def maxTimestampNs : Int := 4102444800000000000

/-- `kMaxBandwidthBps`: 1 Pbit/s. -/
def maxBandwidthBps : Int := 1000000000000000

/-! ## Intervals -/

/-- `Interval`: every instant `t` with `start ≤ t < stop`. -/
@[ext] structure Interval where
  start : Timestamp := 0
  stop : Timestamp := 0
  deriving DecidableEq, Repr, Inhabited

namespace Interval

/-- `Interval::empty`. -/
def empty (i : Interval) : Bool := !(i.start < i.stop)

/-- `Interval::overlaps`. -/
def overlaps (i j : Interval) : Bool := i.start < j.stop && j.start < i.stop

/-- `Interval::contains(Timestamp)`. -/
def containsInstant (i : Interval) (t : Timestamp) : Bool := i.start ≤ t && t < i.stop

/-- The order of intervals: by start, then by end. -/
def toPair (i : Interval) : Timestamp ×ₗ Timestamp := toLex (i.start, i.stop)

theorem toPair_injective : Function.Injective toPair := by
  intro i j h
  have h := Prod.ext_iff.mp (toLex.injective h)
  exact Interval.ext h.1 h.2

instance : LinearOrder Interval := LinearOrder.lift' toPair toPair_injective

end Interval

/-- `validate_interval`: the only admission point for caller-supplied windows. -/
def validateInterval (i : Interval) : Result Unit := do
  refuse (i.start.val < 0) .invalidInterval "interval start must not be negative"
  refuse (maxTimestampNs < i.stop.val) .invalidInterval "interval end exceeds the maximum timestamp"
  refuse (i.stop.val ≤ i.start.val) .invalidInterval
    "interval must be non-empty under [start, end) semantics"
  refuse (maxReservationSpanNs < i.stop.val - i.start.val) .invalidInterval
    "interval span exceeds the maximum reservation span"

/-- A validated interval lies in the fabric timeline and is not empty. -/
theorem validateInterval_ok {i : Interval} (h : validateInterval i = .ok ()) :
    0 ≤ i.start.val ∧ i.start.val < i.stop.val ∧ i.stop.val ≤ maxTimestampNs := by
  simp only [validateInterval, Result.bind_eq_ok] at h
  obtain ⟨_, start, _, stop, _, order, _⟩ := h
  have start := refuse_eq_ok.mp start
  have stop := refuse_eq_ok.mp stop
  have order := refuse_eq_ok.mp order
  simp only [decide_eq_false_iff_not, not_lt, not_le] at start stop order
  exact ⟨start, order, stop⟩

/-! ## Bandwidth -/

/-- `saturating_add` of `bandwidth.hpp`: a sum above the ceiling is the ceiling. -/
def saturatingAdd (a b : Bandwidth) : Bandwidth :=
  if maxBandwidthBps - b.val < a.val then I64.wrap maxBandwidthBps else I64.wrap (a.val + b.val)

/-- A nanosecond count or bandwidth that an operation's arithmetic keeps within 64 bits. -/
theorem val_wrap_max : (I64.wrap maxBandwidthBps).val = maxBandwidthBps := rfl

end Brf
