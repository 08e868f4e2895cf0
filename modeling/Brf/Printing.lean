import Brf.InstantLaws

/-!
# Printing instants

`format_timestamp` against the calendar: the days of an instant are those of a date, and every field is
printed with all its digits, so that the printed text is the text of a stamp.

* `civilFromDays_eq` turns days into a date in shifted months: `yoe_eq` finds the year of the era.
* `stampOf` is the stamp that an instant is printed as.

Results: `parse_format` (what is printed is read back, and printed texts are ordered as their instants).
-/

namespace Brf

open Brf.Lib

/-! ## Fields -/

theorem digitChar_eq {n : Nat} (h : n < 10) : Word.cast 8 n.digitChar.toNat = digit n := by
  interval_cases n <;> decide

/-- `to_decimal` prints the last digit last. -/
theorem toDecimal_eq (n : Nat) :
    toDecimal n = (if n < 10 then [] else toDecimal (n / 10)) ++ [digit n] := by
  by_cases last : n < 10
  · rw [if_pos last, toDecimal, Nat.toDigits_of_lt_base last, List.map_singleton,
      digitChar_eq last, List.nil_append]
  · have same : digit (n % 10) = digit n := by
      rw [digit, Nat.mod_mod, digit]
    rw [if_neg last, toDecimal, Nat.toDigits_of_base_le (by decide) (by omega), List.map_append,
      List.map_singleton, digitChar_eq (by omega), same]
    rfl

theorem decimal_zero : ∀ w : Nat, decimal w 0 = List.replicate w (Word.cast 8 48)
  | 0 => rfl
  | w + 1 => by
    rw [decimal, decimal_zero w, List.replicate_succ']
    rfl

/-- A field that is wide enough is printed with all its digits. -/
theorem padded_eq : ∀ {w n : Nat}, n < 10 ^ (w + 1) → padded (w + 1) n = decimal (w + 1) n := by
  intro w n small
  induction w generalizing n with
  | zero =>
    rw [padded, toDecimal_eq, if_pos (by omega)]
    rfl
  | succ w ih =>
    rw [padded, toDecimal_eq, decimal]
    by_cases last : n < 10
    · rw [if_pos last, Nat.div_eq_of_lt last, decimal_zero]
      rfl
    · rw [Nat.pow_succ] at small
      rw [if_neg last, ← ih (by omega), padded, List.length_append, List.length_singleton,
        ← List.append_assoc, Nat.add_sub_add_right]

/-! ## Days -/

/-- The year of the era in which a day of the era lies: the day is moved by one for every four, every
hundred and every four hundred years, until all years have 365 days. -/
theorem yoe_eq {doe c q k doy : Nat} (day : doe = c * 36524 + q * 1461 + k * 365 + doy) (hc : c < 4)
    (hq : q < 25) (hk : k < 4) (hdoy : doy < 365 ∨ doy = 365 ∧ k = 3 ∧ (q ≠ 24 ∨ c = 3)) :
    (doe - doe / 1460 + doe / 36524 - doe / 146096) / 365 = c * 100 + q * 4 + k := by
  have fours : doe / 1460 = c * 25 + q + (if 1460 ≤ c * 24 + q + k * 365 + doy then 1 else 0) := by
    split <;> omega
  by_cases last : c = 3 ∧ q = 24 ∧ k = 3 ∧ doy = 365
  · obtain ⟨rfl, rfl, rfl, rfl⟩ := last
    subst day
    decide
  · have hundreds : doe / 36524 = c := by omega
    have fourHundreds : doe / 146096 = 0 := by omega
    rw [fours, hundreds, fourHundreds]
    split <;> omega

/-- The day of the year that starts in March. -/
def marchDoy (d : Date) : Nat := (153 * monthShift d.month + 2) / 5 + d.day - 1

/-- Only the year before a leap day has a 366th day. -/
theorem marchDoy_lt {d : Date} (valid : d.Valid) :
    marchDoy d < 365 ∨ marchDoy d = 365 ∧ d.month = 2 ∧ IsLeap d.year := by
  obtain ⟨month_pos, month_le, day_pos, day_le⟩ := valid
  unfold marchDoy
  generalize d.month = month at *
  by_cases leap : IsLeap d.year <;> interval_cases month <;>
    simp [monthLength, monthShift, leap] at * <;> omega

/-- The month and the day behind a day of the year that starts in March. -/
theorem month_of_marchDoy {d : Date} (valid : d.Valid) :
    (5 * marchDoy d + 2) / 153 = monthShift d.month ∧
      marchDoy d - (153 * monthShift d.month + 2) / 5 + 1 = d.day ∧
      (if monthShift d.month < 10 then monthShift d.month + 3 else monthShift d.month - 9) =
        d.month := by
  obtain ⟨month_pos, month_le, day_pos, day_le⟩ := valid
  unfold marchDoy
  generalize d.month = month at *
  by_cases leap : IsLeap d.year <;> interval_cases month <;>
    simp [monthLength, monthShift, leap] at * <;> omega

/-- The year that starts in March. -/
def marchYear (d : Date) : Nat := d.year - (if d.month ≤ 2 then 1 else 0)

/-- A day, split into eras of four hundred years, the centuries of an era, and the groups of four years
of a century. -/
theorem day_split {d : Date} (valid : d.Valid) {n : Nat} (same : dayNumber d = n + 719528) :
    ∃ era c q k : Nat, c < 4 ∧ q < 25 ∧ k < 4 ∧ marchYear d = era * 400 + (c * 100 + q * 4 + k) ∧
      n + 719468 = era * 146097 + (c * 36524 + q * 1461 + k * 365 + marchDoy d) ∧
      (marchDoy d < 365 ∨ marchDoy d = 365 ∧ k = 3 ∧ (q ≠ 24 ∨ c = 3)) ∧
      marchYear d + (if d.month ≤ 2 then 1 else 0) = d.year := by
  have count := dayNumber_eq_march valid
  have last := marchDoy_lt valid
  have day_pos := valid.day_pos
  have doy : ((153 * monthShift d.month + 2) / 5 : Nat) + (d.day : Int) - 1 = marchDoy d := by
    unfold marchDoy
    omega
  have day_le : marchDoy d < 366 := by omega
  have year_pos : 1 ≤ d.year := by
    by_contra zero
    unfold marchDay at count
    split at count <;> omega
  have year : (d.year - (if d.month ≤ 2 then 1 else 0) : Int) = marchYear d := by
    unfold marchYear
    split <;> omega
  rw [year] at count
  have leap : d.month = 2 → IsLeap d.year → d.year = marchYear d + 1 := by
    intro february _
    unfold marchYear
    rw [if_pos (by omega)]
    omega
  have back : marchYear d + (if d.month ≤ 2 then 1 else 0) = d.year := by
    unfold marchYear
    split <;> omega
  unfold marchDay at count
  unfold IsLeap at leap last
  refine ⟨marchYear d / 400, marchYear d % 400 / 100, marchYear d % 100 / 4, marchYear d % 4,
    by omega, by omega, by omega, by omega, by omega, by omega, back⟩

/-- The days of the era before its year. -/
theorem days_of_yoe {c q k : Nat} (hq : q < 25) (hk : k < 4) :
    365 * (c * 100 + q * 4 + k) + (c * 100 + q * 4 + k) / 4 - (c * 100 + q * 4 + k) / 100 =
      c * 36524 + q * 1461 + k * 365 := by
  have fours : (c * 100 + q * 4 + k) / 4 = c * 25 + q := by omega
  have hundreds : (c * 100 + q * 4 + k) / 100 = c := by omega
  rw [fours, hundreds]
  omega

/-- **The date** of a day from the epoch on. -/
theorem civilFromDays_eq {d : Date} (valid : d.Valid) {n : Nat} (same : dayNumber d = n + 719528) :
    civilFromDays n = { year := d.year, month := d.month, day := d.day } := by
  obtain ⟨era, c, q, k, hc, hq, hk, year, day, last, back⟩ := day_split valid same
  obtain ⟨month_eq, day_eq, month_back⟩ := month_of_marchDoy valid
  have doe_lt : c * 36524 + q * 1461 + k * 365 + marchDoy d < 146097 := by omega
  have era_eq : (n + 719468) / 146097 = era := by
    rw [day]
    omega
  have doe_eq : n + 719468 - era * 146097 = c * 36524 + q * 1461 + k * 365 + marchDoy d := by
    rw [day, Nat.add_sub_cancel_left]
  have doy : c * 36524 + q * 1461 + k * 365 + marchDoy d - (365 * (c * 100 + q * 4 + k) +
      (c * 100 + q * 4 + k) / 4 - (c * 100 + q * 4 + k) / 100) = marchDoy d := by
    rw [days_of_yoe hq hk, Nat.add_sub_cancel_left]
  have year_eq : (((c * 100 + q * 4 + k : Nat) : Int) + (era : Int) * 400 +
      (if d.month ≤ 2 then 1 else 0)) = d.year := by
    rw [← back, year]
    split <;> omega
  have yoe := yoe_eq rfl hc hq hk last
  unfold civilFromDays
  dsimp only
  rw [era_eq, doe_eq, yoe, doy, month_eq, day_eq, month_back, CivilDate.mk.injEq]
  exact ⟨by push_cast at year_eq ⊢; exact year_eq, rfl, rfl⟩

/-! ## The stamp of an instant -/

/-- Digits of nanoseconds. -/
theorem fraction_decimal (n : Nat) : Fraction (decimal 9 n) :=
  ⟨fun _ hb => isDigit_of_mem_decimal hb, by simp⟩

/-- What an instant is printed as. -/
theorem exists_stamp (ns : Nat) : ∃ s : Stamp, s.Exists ∧ s.instant = ns ∧
    s.fraction = decimal 9 (ns % 1000000000) ∧
    civilFromDays (ns / 1000000000 / 86400) =
      { year := s.date.year, month := s.date.month, day := s.date.day } ∧
    s.hour = ns / 1000000000 % 86400 / 3600 ∧ s.minute = ns / 1000000000 % 86400 % 3600 / 60 ∧
    s.second = ns / 1000000000 % 86400 % 60 := by
  obtain ⟨d, valid, number⟩ := exists_date (ns / 1000000000 / 86400 + 719528)
  refine ⟨{ date := d, hour := ns / 1000000000 % 86400 / 3600
            minute := ns / 1000000000 % 86400 % 3600 / 60
            second := ns / 1000000000 % 86400 % 60, fraction := decimal 9 (ns % 1000000000) },
    ⟨valid, by dsimp only; omega, by dsimp only; omega, by dsimp only; omega⟩, ?_, rfl,
    civilFromDays_eq valid number, rfl, rfl, rfl⟩
  have fraction : fractionNanos (decimal 9 (ns % 1000000000)) = ns % 1000000000 := by
    rw [fractionNanos, decimalValue_decimal (by omega), decimal_length]
    omega
  have epoch := dayNumber_epoch
  simp only [Stamp.instant, Stamp.seconds, fraction]
  omega

/-- The instants of the supported domain. -/
def Supported (t : Timestamp) : Prop := 0 ≤ t.val ∧ t.val ≤ maxTimestampNs

/-- **The printed text** of an instant is that of its stamp. -/
theorem format_stamp {t : Timestamp} (h : Supported t) :
    ∃ s : Stamp, s.Spellable ∧ s.Exists ∧ s.instant = t.val ∧
      s.fraction = decimal 9 (t.val.toNat % 1000000000) ∧ formatTimestamp t = s.text := by
  obtain ⟨nonneg, le⟩ := h
  unfold maxTimestampNs at le
  obtain ⟨s, exist, instant, fraction, civil, hour, minute, second⟩ := exists_stamp t.val.toNat
  have year : s.date.year < 10000 := by
    have count := dayNumber_eq_march exist.date
    have epoch := dayNumber_epoch
    have nanos := (fraction ▸ fraction_decimal _ : Fraction s.fraction).nanos_lt
    have pos := exist.date.day_pos
    unfold Stamp.instant Stamp.seconds at instant
    unfold marchDay at count
    split at count <;> omega
  have month := exist.date.month_le
  have day : s.date.day < 100 := by
    have most := exist.date.day_le
    unfold monthLength at most
    split at most <;> (try split at most) <;> omega
  refine ⟨s, ⟨year, by omega, day, by omega, by omega, by omega, fraction ▸ fraction_decimal _⟩, exist,
    by omega, fraction, ?_⟩
  have some : decimal 9 (t.val.toNat % 1000000000) ≠ [] := fun none => by
    have len := decimal_length 9 (t.val.toNat % 1000000000)
    simp [none] at len
  unfold formatTimestamp Stamp.text
  rw [if_neg (by omega)]
  simp only [civil, Int.toNat_natCast]
  rw [fraction, fractionText, if_neg some, hour, minute, second, padded_eq year, padded_eq (by omega),
    padded_eq day, padded_eq (by omega), padded_eq (by omega), padded_eq (by omega),
    padded_eq (by omega)]
  simp only [List.append_assoc]
  rfl

/-! ## Order -/

/-- Dates are before one another, or the same. -/
theorem date_cases (d e : Date) : d.Before e ∨ d = e ∨ e.Before d := by
  unfold Date.Before
  by_cases same : d = e
  · exact .inr (.inl same)
  · have other : ¬ (d.year = e.year ∧ d.month = e.month ∧ d.day = e.day) := fun h =>
      same (Date.ext h.1 h.2.1 h.2.2)
    omega

/-- A larger field makes a larger text, and so does the rest behind equal ones. -/
theorem field_lt {w m n : Nat} {x y : Text} (small : n < 10 ^ w) (h : m < n ∨ m = n ∧ x < y) :
    decimal w m ++ x < decimal w n ++ y := by
  obtain less | ⟨rfl, rest⟩ := h
  · exact append_lt_append (by simp) (decimal_lt small less)
  · exact List.append_left_lt rest

namespace Stamp

variable {s s' : Stamp}

/-- The instants of a day are before those of the next. -/
theorem day_bounds (exist : s.Exists) (fraction : Fraction s.fraction) :
    ((dayNumber s.date : Int) - 719528) * 86400000000000 ≤ s.instant ∧
      s.instant < ((dayNumber s.date : Int) - 719528 + 1) * 86400000000000 := by
  have nanos := fraction.nanos_lt
  have epoch := dayNumber_epoch
  have hour := exist.hour
  have minute := exist.minute
  have second := exist.second
  unfold instant seconds
  omega

/-- Earlier instants are on earlier days, or earlier on the same day. -/
theorem fields_lt (exist : s.Exists) (exist' : s'.Exists) (fraction : Fraction s.fraction)
    (fraction' : Fraction s'.fraction) (h : s.instant < s'.instant) :
    s.date.Before s'.date ∨ s.date = s'.date ∧ (s.hour < s'.hour ∨ s.hour = s'.hour ∧
      (s.minute < s'.minute ∨ s.minute = s'.minute ∧ (s.second < s'.second ∨ s.second = s'.second ∧
        fractionNanos s.fraction < fractionNanos s'.fraction))) := by
  obtain before | same | after := date_cases s.date s'.date
  · exact .inl before
  · right
    refine ⟨same, ?_⟩
    have nanos := fraction.nanos_lt
    have nanos' := fraction'.nanos_lt
    have minute := exist.minute
    have minute' := exist'.minute
    have second := exist.second
    have second' := exist'.second
    unfold instant seconds at h
    rw [same] at h
    omega
  · have later := dayNumber_lt exist'.date after
    have bounds := day_bounds exist fraction
    have bounds' := day_bounds exist' fraction'
    omega

/-- **Texts** with all digits of the nanoseconds are ordered as their instants. -/
theorem text_lt {m n : Nat} (spell' : s'.Spellable) (exist : s.Exists) (exist' : s'.Exists)
    (fraction : s.fraction = decimal 9 m) (fraction' : s'.fraction = decimal 9 n)
    (small : m < 1000000000) (small' : n < 1000000000) (h : s.instant < s'.instant) :
    s.text < s'.text := by
  have nanos : ∀ {k : Nat}, k < 1000000000 → fractionNanos (decimal 9 k) = k := fun {k} lt => by
    rw [fractionNanos, decimalValue_decimal (by omega), decimal_length]
    omega
  have point : ∀ k : Nat, fractionText (decimal 9 k) = Word.cast 8 46 :: decimal 9 k := fun k => by
    have len := decimal_length 9 k
    exact if_neg fun none => by simp [none] at len
  have fields := fields_lt exist exist' (fraction ▸ fraction_decimal m) (fraction' ▸ fraction_decimal n) h
  rw [fraction, fraction', nanos small, nanos small'] at fields
  unfold text
  rw [fraction, fraction', point, point]
  simp only [List.append_assoc]
  obtain (year | ⟨year, month | ⟨month, day⟩⟩) | ⟨date, rest⟩ := fields
  · exact field_lt spell'.year (.inl year)
  · refine field_lt spell'.year (.inr ⟨year, List.append_left_lt ?_⟩)
    exact field_lt spell'.month (.inl month)
  · refine field_lt spell'.year (.inr ⟨year, List.append_left_lt ?_⟩)
    refine field_lt spell'.month (.inr ⟨month, List.append_left_lt ?_⟩)
    exact field_lt spell'.day (.inl day)
  · rw [date]
    refine List.append_left_lt (List.append_left_lt (List.append_left_lt (List.append_left_lt
      (List.append_left_lt (List.append_left_lt (field_lt spell'.hour ?_))))))
    refine rest.imp_right fun h => ⟨h.1, List.append_left_lt (field_lt spell'.minute ?_)⟩
    refine h.2.imp_right fun h => ⟨h.1, List.append_left_lt (field_lt spell'.second ?_)⟩
    refine h.2.imp_right fun h => ⟨h.1, ?_⟩
    have nanos_lt : decimal 9 m < decimal 9 n := decimal_lt (by omega) h.2
    exact append_lt_append (by simp) (List.cons_lt_cons_iff.mpr (.inr ⟨rfl, nanos_lt⟩))

end Stamp

/-- **Instants** are printed in their order. -/
theorem format_lt {t u : Timestamp} (ht : Supported t) (hu : Supported u) (h : t.val < u.val) :
    formatTimestamp t < formatTimestamp u := by
  obtain ⟨s, -, exist, instant, fraction, text⟩ := format_stamp ht
  obtain ⟨s', spell', exist', instant', fraction', text'⟩ := format_stamp hu
  rw [text, text']
  exact Stamp.text_lt spell' exist exist' fraction fraction' (by omega) (by omega) (by omega)

/-- **What is printed is read back**, and the order of the printed texts is that of the instants. -/
theorem parse_format {t u : Timestamp} (ht : Supported t) (hu : Supported u) :
    Computes (parseTimestamp (formatTimestamp t)) (.ok t) ∧
      (formatTimestamp t < formatTimestamp u ↔ t < u) := by
  constructor
  · obtain ⟨s, spell, exist, instant, -, text⟩ := format_stamp ht
    have expresses : Expresses (formatTimestamp t) t :=
      ⟨s, spell, text.symm, exist, instant ▸ ht.1, instant ▸ ht.2, instant.symm⟩
    exact expresses.computes
  · constructor
    · intro less
      by_contra not_less
      obtain later | same := lt_or_eq_of_le (not_lt.mp not_less)
      · exact lt_asymm less (format_lt hu ht later)
      · rw [same] at less
        exact lt_irrefl _ less
    · exact format_lt ht hu

theorem parse_format_second :
    Computes (parseTimestamp (formatTimestamp (I64.wrap 0))) (.ok (I64.wrap 0)) ∧
      (formatTimestamp (I64.wrap 0) < formatTimestamp (I64.wrap 1000000000) ↔
        I64.wrap 0 < I64.wrap 1000000000) :=
  parse_format (by unfold Supported; decide) (by unfold Supported; decide)

end Brf
