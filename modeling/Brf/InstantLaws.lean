import Brf.Instants
import Brf.Lib.Calendar

/-!
# Instants and their spellings

What `parse_timestamp` accepts, in terms of the calendar: an instant is a date, a time of day and a
fraction of a second.

* `Stamp` is what a text of the canonical form says; `Stamp.instant` counts its nanoseconds from the
  epoch in the days of `Brf.Lib.Calendar`.
* A text of twenty bytes or more falls into the `Pieces` that the parser looks at.

Results: `parse_exact_iff` (the parser is exact, and no operation overflows, except on the texts of
instants beyond 64 bits: the range check comes after the multiplication).
-/

namespace Brf

open Brf.Lib

/-! ## Checks -/

theorem computes_refused {α : Type} {c : Bool} {code : ErrorCode} {message : String}
    {f : Unit → Checked Error α} (h : c = true) :
    Computes (Checked.lift (refuse c code message) >>= f) (.error (makeError code message)) := by
  subst h
  rfl

theorem passed_bind {α : Type} {c : Bool} {code : ErrorCode} {message : String}
    {f : Unit → Checked Error α} (h : c = false) :
    Checked.lift (refuse c code message) >>= f = f () := by
  subst h
  rfl

theorem computes_passed {α : Type} {c : Bool} {code : ErrorCode} {message : String}
    {f : Unit → Checked Error α} {x : Result α} (h : c = false) (later : Computes (f ()) x) :
    Computes (Checked.lift (refuse c code message) >>= f) x := by
  rw [passed_bind h]
  exact later

theorem noError_check {α : Type} {c : Bool} {code : ErrorCode} {message : String}
    {f : Unit → Checked Error α} (h : NoError (Checked.lift (refuse c code message) >>= f)) :
    c = false ∧ NoError (f ()) := by
  obtain ⟨⟨⟩, passed, rest⟩ := h.bind (computes_lift _)
  exact ⟨refuse_eq_ok.mp passed, rest⟩

/-! ## Digits -/

/-- There is room for one more digit. -/
theorem digit_room {front n bound v : Nat} (small : (front + 1) * 10 ^ (n + 1) ≤ bound) (hv : v ≤ 9) :
    front * 10 + v < bound ∧ (front * 10 + v + 1) * 10 ^ n ≤ bound := by
  have grow : (front + 1) * 10 ^ (n + 1) = ((front + 1) * 10) * 10 ^ n := by
    rw [Nat.pow_succ', Nat.mul_assoc]
  have pos : 0 < 10 ^ n := Nat.pow_pos (by decide)
  have next : (front * 10 + v + 1) * 10 ^ n ≤ ((front + 1) * 10) * 10 ^ n :=
    Nat.mul_le_mul_right _ (by omega)
  have one := Nat.le_mul_of_pos_right (front * 10 + v + 1) pos
  omega

/-- The loop of `parse_fixed_digits` on four digits at most. -/
theorem computes_parseDigits : ∀ (ds : Text) (front : Nat), (front + 1) * 10 ^ ds.length ≤ 10000 →
    Computes (parseDigits front ds)
      (.ok (if ∀ b ∈ ds, IsDigit b then some (decimalValue front ds : Int) else none))
  | [], front, _ => by
    simp only [List.not_mem_nil, false_implies, implies_true, if_true]
    exact computes_pure _
  | b :: ds, front, small => by
    unfold parseDigits
    by_cases digit : IsDigit b
    · have inside : ¬ ((decide (b.val < 48) || decide (57 < b.val)) = true) := by
        simp only [Bool.or_eq_true, decide_eq_true_eq]
        unfold IsDigit at digit
        omega
      rw [if_neg inside]
      have lo := digit.1
      have hi := digit.2
      obtain ⟨here, later⟩ := digit_room small (by omega : b.val - 48 ≤ 9)
      have next : (front : Int) * 10 + (b.val - 48) = ((front * 10 + (b.val - 48) : Nat) : Int) := by
        omega
      refine computes_bind_ok (computes_signed (fits_32.mpr (by omega))) ?_
      refine computes_bind_ok (computes_signed (fits_32.mpr (by omega))) ?_
      rw [next]
      simp only [List.forall_mem_cons, digit, true_and]
      exact computes_parseDigits ds (front * 10 + (b.val - 48)) later
    · have outside : (decide (b.val < 48) || decide (57 < b.val)) = true := by
        simp only [Bool.or_eq_true, decide_eq_true_eq]
        unfold IsDigit at digit
        omega
      rw [if_pos outside]
      simp only [List.forall_mem_cons, digit, false_and, if_false]
      exact computes_pure _

/-- A field is its digits. -/
theorem computes_field {text ds : Text} {offset count : Nat} (enough : offset + count ≤ text.length)
    (found : (text.drop offset).take count = ds) (short : count ≤ 4) :
    Computes (field text offset count) (if ∀ b ∈ ds, IsDigit b then .ok (decimalValue 0 ds : Int)
      else .error (makeError .invalidArgument "timestamp contains a non-digit field")) := by
  have small : (0 + 1) * 10 ^ ds.length ≤ 10000 := by
    have len : ds.length ≤ 4 := by
      rw [← found, List.length_take]
      omega
    have le : 10 ^ ds.length ≤ 10 ^ 4 := Nat.pow_le_pow_right (by decide) len
    omega
  have run := computes_parseDigits ds 0 small
  unfold field parseFixedDigits
  rw [if_neg (by omega), found]
  by_cases digits : ∀ b ∈ ds, IsDigit b
  · rw [if_pos digits] at run ⊢
    exact computes_bind_ok run (computes_pure _)
  · rw [if_neg digits] at run ⊢
    exact computes_bind_ok run (computes_lift _)

/-! ## Fractions -/

/-- The loop over a fraction that starts with the digits `ds`. -/
theorem computes_parseFraction {rest : Text} (stop : ∀ b ∈ rest.head?, ¬ IsDigit b) :
    ∀ (ds : Text) (nanos count : Nat), (∀ b ∈ ds, IsDigit b) → nanos < 10 ^ count → count ≤ 9 →
      Computes (parseFraction nanos count (ds ++ rest)) (if count + ds.length ≤ 9 then
          .ok ((decimalValue nanos ds : Int), count + ds.length, rest)
        else .error (makeError .invalidArgument "timestamp has more than nine fractional digits"))
  | [], nanos, count, _, small, few => by
    have short : count + ([] : Text).length ≤ 9 := few
    rw [if_pos short, List.nil_append]
    cases rest with
    | nil => exact computes_pure _
    | cons b rest =>
      have no := stop b rfl
      have other : ¬ (decide (48 ≤ b.val) && decide (b.val ≤ 57)) = true := by
        simpa [IsDigit] using no
      unfold parseFraction
      rw [if_neg other]
      exact computes_pure _
  | b :: ds, nanos, count, digits, small, few => by
    rw [List.forall_mem_cons] at digits
    have lo := digits.1.1
    have hi := digits.1.2
    have inside : (decide (48 ≤ b.val) && decide (b.val ≤ 57)) = true := by
      simp [lo, hi]
    rw [List.cons_append, parseFraction, if_pos inside]
    by_cases full : 9 ≤ count
    · have long : ¬ count + (b :: ds).length ≤ 9 := by
        rw [List.length_cons]
        omega
      rw [if_neg long]
      exact computes_refused (by simpa using full)
    · have bound : 10 ^ (count + 1) ≤ 10 ^ 9 := Nat.pow_le_pow_right (by decide) (by omega)
      have grow : 10 ^ (count + 1) = 10 ^ count * 10 := Nat.pow_succ _ _
      have next : (nanos : Int) * 10 + (b.val - 48) = ((nanos * 10 + (b.val - 48) : Nat) : Int) := by
        omega
      refine computes_passed (by simpa using full) ?_
      refine computes_bind_ok (computes_signed (fits_64.mpr (by omega))) ?_
      refine computes_bind_ok (computes_signed (fits_64.mpr (by omega))) ?_
      rw [next]
      have later := computes_parseFraction stop ds (nanos * 10 + (b.val - 48)) (count + 1) digits.2
        (by omega) (by omega)
      rw [Nat.add_assoc, Nat.add_comm 1] at later
      exact later

theorem computes_scaleFraction : ∀ (n nanos : Nat), nanos * 10 ^ n ≤ 1000000000 →
    Computes (scaleFraction n nanos) (.ok ((nanos * 10 ^ n : Nat) : Int))
  | 0, nanos, _ => by
    rw [Nat.pow_zero, Nat.mul_one]
    exact computes_pure _
  | n + 1, nanos, small => by
    have grow : nanos * 10 ^ (n + 1) = nanos * 10 * 10 ^ n := by
      rw [Nat.pow_succ', Nat.mul_assoc]
    have here := Nat.le_mul_of_pos_right (nanos * 10) (Nat.pow_pos (by decide) : 0 < 10 ^ n)
    rw [grow] at small ⊢
    unfold scaleFraction
    refine computes_bind_ok (computes_signed (fits_64.mpr (by omega))) ?_
    exact computes_scaleFraction n (nanos * 10) small

/-- The nanoseconds of a fraction of a second. -/
def fractionNanos (fraction : Text) : Nat := decimalValue 0 fraction * 10 ^ (9 - fraction.length)

/-- A fraction behind its point; there is no point without a fraction. -/
def fractionText (fraction : Text) : Text :=
  if fraction = [] then [] else Word.cast 8 46 :: fraction

/-- At most nine digits. -/
structure Fraction (fraction : Text) : Prop where
  digits : ∀ b ∈ fraction, IsDigit b
  short : fraction.length ≤ 9

theorem Fraction.nanos_lt {fraction : Text} (h : Fraction fraction) :
    fractionNanos fraction < 1000000000 := by
  have value := (decimal_decimalValue h.digits).2
  have pos : 0 < 10 ^ (9 - fraction.length) := Nat.pow_pos (by decide)
  have all : 10 ^ fraction.length * 10 ^ (9 - fraction.length) = 1000000000 := by
    rw [← Nat.pow_add, Nat.add_sub_cancel' h.short]
  rw [← all]
  exact Nat.mul_lt_mul_of_pos_right value pos

/-- A fraction is read up to what follows it. -/
theorem computes_parseNanos {fraction rest : Text} (h : Fraction fraction)
    (stop : ∀ b ∈ rest.head?, ¬ IsDigit b)
    (other : fraction = [] → ∀ b ∈ rest.head?, b ≠ Word.cast 8 46) :
    Computes (parseNanos (fractionText fraction ++ rest))
      (.ok ((fractionNanos fraction : Int), rest)) := by
  unfold fractionText
  by_cases absent : fraction = []
  · have other := other absent
    rw [if_pos absent, List.nil_append, absent]
    cases rest with
    | nil => exact computes_pure _
    | cons b rest =>
      unfold parseNanos
      dsimp only
      rw [if_neg (other b rfl)]
      exact computes_pure _
  · have value := (decimal_decimalValue h.digits).2
    have nanos := h.nanos_lt
    have some : ¬ fraction.length = 0 := by simpa using absent
    have run := computes_parseFraction stop fraction 0 0 h.digits (by decide) (by decide)
    rw [Nat.zero_add, if_pos h.short] at run
    rw [if_neg absent, List.cons_append]
    unfold parseNanos
    dsimp only
    rw [if_pos rfl]
    refine computes_bind_ok run ?_
    refine computes_passed (by simpa using absent) ?_
    exact computes_bind_ok (computes_scaleFraction _ _ (le_of_lt nanos)) (computes_pure _)

/-- **Every text** either starts with a fraction or is refused. -/
theorem parseNanos_cases (text : Text) :
    (∃ fraction rest, Fraction fraction ∧ text = fractionText fraction ++ rest ∧
      Computes (parseNanos text) (.ok ((fractionNanos fraction : Int), rest))) ∨
    ∃ e, Computes (parseNanos text) (.error e) := by
  by_cases point : ∃ rest, text = Word.cast 8 46 :: rest
  · obtain ⟨rest, rfl⟩ := point
    let ds := rest.takeWhile fun b => decide (IsDigit b)
    let left := rest.dropWhile fun b => decide (IsDigit b)
    have split : rest = ds ++ left := List.takeWhile_append_dropWhile.symm
    have digits : ∀ b ∈ ds, IsDigit b := fun b hb => by
      simpa using List.all_eq_true.mp (List.all_takeWhile) b hb
    have stop : ∀ b ∈ left.head?, ¬ IsDigit b := fun b hb => by
      have first := List.head?_dropWhile_not (fun b => decide (IsDigit b)) rest
      rw [show (rest.dropWhile fun b => decide (IsDigit b)).head? = some b from hb] at first
      simpa using first
    have run := computes_parseFraction stop ds 0 0 digits (by decide) (by decide)
    rw [Nat.zero_add, ← split] at run
    by_cases short : ds.length ≤ 9
    · rw [if_pos short] at run
      by_cases absent : ds = []
      · right
        refine ⟨makeError .invalidArgument "timestamp fraction has no digits", ?_⟩
        unfold parseNanos
        dsimp only
        rw [if_pos rfl]
        exact computes_bind_ok run (computes_refused (by simp [absent]))
      · left
        have text : Word.cast 8 46 :: rest = fractionText ds ++ left := by
          rw [fractionText, if_neg absent, List.cons_append, ← split]
        refine ⟨ds, left, ⟨digits, short⟩, text, ?_⟩
        rw [text]
        exact computes_parseNanos ⟨digits, short⟩ stop fun no => absurd no absent
    · right
      rw [if_neg short] at run
      refine ⟨makeError .invalidArgument "timestamp has more than nine fractional digits", ?_⟩
      unfold parseNanos
      dsimp only
      rw [if_pos rfl]
      exact computes_bind_error run
  · left
    refine ⟨[], text, ⟨by simp, by simp⟩, rfl, ?_⟩
    cases text with
    | nil => exact computes_pure _
    | cons b rest =>
      have other : ¬ b = Word.cast 8 46 := fun same => point ⟨rest, by rw [same]⟩
      unfold parseNanos
      dsimp only
      rw [if_neg other]
      exact computes_pure _

/-! ## The pieces of a text -/

/-- What `parse_timestamp` looks at in a text of twenty bytes or more. -/
structure Pieces where
  year : Text
  month : Text
  day : Text
  hour : Text
  minute : Text
  second : Text
  /-- The bytes between the fields. -/
  marks : Byte × Byte × Byte × Byte × Byte
  rest : Text
  year_length : year.length = 4
  month_length : month.length = 2
  day_length : day.length = 2
  hour_length : hour.length = 2
  minute_length : minute.length = 2
  second_length : second.length = 2
  rest_ne : rest ≠ []

namespace Pieces

/-- The text that falls into the pieces. -/
def text (p : Pieces) : Text :=
  p.year ++ p.marks.1 :: (p.month ++ p.marks.2.1 :: (p.day ++ p.marks.2.2.1 :: (p.hour ++
    p.marks.2.2.2.1 :: (p.minute ++ p.marks.2.2.2.2 :: (p.second ++ p.rest)))))

/-- A byte behind a front of known length. -/
theorem split_at {text : Text} {n : Nat} (long : n < text.length) :
    ∃ (front : Text) (b : Byte) (rest : Text), text = front ++ b :: rest ∧ front.length = n := by
  refine ⟨text.take n, text[n], text.drop (n + 1), ?_, ?_⟩
  · rw [← List.drop_eq_getElem_cons long, List.take_append_drop]
  · exact List.length_take_of_le (le_of_lt long)

theorem exists_of_length {text : Text} (long : 20 ≤ text.length) : ∃ p : Pieces, p.text = text := by
  obtain ⟨year, a, left, rfl, year_length⟩ := split_at (by omega : 4 < text.length)
  simp only [List.length_append, List.length_cons] at long
  obtain ⟨month, b, left, rfl, month_length⟩ := split_at (by omega : 2 < left.length)
  simp only [List.length_append, List.length_cons] at long
  obtain ⟨day, c, left, rfl, day_length⟩ := split_at (by omega : 2 < left.length)
  simp only [List.length_append, List.length_cons] at long
  obtain ⟨hour, d, left, rfl, hour_length⟩ := split_at (by omega : 2 < left.length)
  simp only [List.length_append, List.length_cons] at long
  obtain ⟨minute, e, left, rfl, minute_length⟩ := split_at (by omega : 2 < left.length)
  simp only [List.length_append, List.length_cons] at long
  obtain ⟨second, f, left, rfl, second_length⟩ := split_at (by omega : 2 < left.length)
  exact ⟨{ year, month, day, hour, minute, second, marks := (a, b, c, d, e), rest := f :: left
           year_length, month_length, day_length, hour_length, minute_length, second_length
           rest_ne := by simp }, rfl⟩

/-- The marks of the canonical form. -/
def canonical : Byte × Byte × Byte × Byte × Byte :=
  (Word.cast 8 45, Word.cast 8 45, Word.cast 8 84, Word.cast 8 58, Word.cast 8 58)

variable (p : Pieces)

theorem length_text : 20 ≤ p.text.length := by
  have pos := List.length_pos_iff.mpr p.rest_ne
  simp only [text, List.length_append, List.length_cons, p.year_length, p.month_length, p.day_length,
    p.hour_length, p.minute_length, p.second_length]
  omega

/-- What the parser compares with the marks of the canonical form. -/
theorem marks_of_text : (p.text.getD 4 0, p.text.getD 7 0, p.text.getD 10 0, p.text.getD 13 0,
    p.text.getD 16 0) = p.marks := by
  simp [text, List.getElem?_append, p.year_length, p.month_length, p.day_length, p.hour_length,
    p.minute_length]

/-- What stands behind the seconds. -/
theorem drop_text : p.text.drop 19 = p.rest := by
  simp [text, List.drop_append, List.drop_of_length_le, p.year_length, p.month_length, p.day_length,
    p.hour_length, p.minute_length, p.second_length]

/-- The verdict on a field. -/
def verdict (ds : Text) : Result Int :=
  if ∀ b ∈ ds, IsDigit b then .ok (decimalValue 0 ds : Int)
  else .error (makeError .invalidArgument "timestamp contains a non-digit field")

/-- What the parser reads from the fields. -/
theorem computes_fields : Computes (field p.text 0 4) (verdict p.year) ∧
    Computes (field p.text 5 2) (verdict p.month) ∧ Computes (field p.text 8 2) (verdict p.day) ∧
    Computes (field p.text 11 2) (verdict p.hour) ∧
    Computes (field p.text 14 2) (verdict p.minute) ∧
    Computes (field p.text 17 2) (verdict p.second) := by
  have long := p.length_text
  refine ⟨computes_field (by omega) ?_ (by decide), computes_field (by omega) ?_ (by decide),
    computes_field (by omega) ?_ (by decide), computes_field (by omega) ?_ (by decide),
    computes_field (by omega) ?_ (by decide), computes_field (by omega) ?_ (by decide)⟩ <;>
    simp [text, List.drop_append, List.drop_of_length_le, p.year_length, p.month_length,
      p.day_length, p.hour_length, p.minute_length, p.second_length]

end Pieces

/-! ## Stamps -/

/-- What a text of the canonical form says. -/
structure Stamp where
  date : Date
  hour : Nat
  minute : Nat
  second : Nat
  fraction : Text

namespace Stamp

/-- The fields have room for the numbers. -/
structure Spellable (s : Stamp) : Prop where
  year : s.date.year < 10000
  month : s.date.month < 100
  day : s.date.day < 100
  hour : s.hour < 100
  minute : s.minute < 100
  second : s.second < 100
  fraction : Fraction s.fraction

/-- `YYYY-MM-DDTHH:MM:SS[.f]Z`. -/
def text (s : Stamp) : Text :=
  decimal 4 s.date.year ++ ascii "-" ++ decimal 2 s.date.month ++ ascii "-" ++
    decimal 2 s.date.day ++ ascii "T" ++ decimal 2 s.hour ++ ascii ":" ++ decimal 2 s.minute ++
    ascii ":" ++ decimal 2 s.second ++ fractionText s.fraction ++ ascii "Z"

/-- The date and the time of day exist. -/
structure Exists (s : Stamp) : Prop where
  date : s.date.Valid
  hour : s.hour ≤ 23
  minute : s.minute ≤ 59
  second : s.second ≤ 59

/-- The seconds from the epoch on. -/
def seconds (s : Stamp) : Int :=
  ((dayNumber s.date : Int) - dayNumber ⟨1970, 1, 1⟩) * 86400 + s.hour * 3600 + s.minute * 60 +
    s.second

/-- The nanoseconds from the epoch on. -/
def instant (s : Stamp) : Int := s.seconds * 1000000000 + fractionNanos s.fraction

/-- The pieces of the text. -/
def pieces (s : Stamp) : Pieces where
  year := decimal 4 s.date.year
  month := decimal 2 s.date.month
  day := decimal 2 s.date.day
  hour := decimal 2 s.hour
  minute := decimal 2 s.minute
  second := decimal 2 s.second
  marks := Pieces.canonical
  rest := fractionText s.fraction ++ ascii "Z"
  year_length := decimal_length _ _
  month_length := decimal_length _ _
  day_length := decimal_length _ _
  hour_length := decimal_length _ _
  minute_length := decimal_length _ _
  second_length := decimal_length _ _
  rest_ne := by simp [ascii]

theorem pieces_text (s : Stamp) : s.pieces.text = s.text := by
  simp only [Pieces.text, pieces, text, List.append_assoc]
  rfl

/-- What the parser does with a stamp that it has read. -/
def check (s : Stamp) : Checked Error Timestamp := do
  Checked.lift <| refuse ((s.date.month : Int) < 1 || 12 < (s.date.month : Int)) .invalidArgument
    "timestamp month is out of range"
  Checked.lift <| refuse ((s.date.day : Int) < 1 || daysInMonth s.date.year s.date.month < s.date.day)
    .invalidArgument "timestamp day is out of range"
  Checked.lift <| refuse (23 < (s.hour : Int) || 59 < (s.minute : Int) || 59 < (s.second : Int))
    .invalidArgument "timestamp time-of-day is out of range"
  instantOf s.date.year s.date.month s.date.day s.hour s.minute s.second
    (fractionNanos s.fraction)

/-- A field of a stamp is read back. -/
theorem verdict_decimal (w : Nat) {n : Nat} (small : n < 10 ^ w) :
    Pieces.verdict (decimal w n) = .ok (n : Int) := by
  rw [Pieces.verdict, if_pos fun b hb => isDigit_of_mem_decimal hb, decimalValue_decimal small]

theorem computes_fields {s : Stamp} (h : s.Spellable) :
    Computes (field s.text 0 4) (.ok (s.date.year : Int)) ∧
    Computes (field s.text 5 2) (.ok (s.date.month : Int)) ∧
    Computes (field s.text 8 2) (.ok (s.date.day : Int)) ∧
    Computes (field s.text 11 2) (.ok (s.hour : Int)) ∧
    Computes (field s.text 14 2) (.ok (s.minute : Int)) ∧
    Computes (field s.text 17 2) (.ok (s.second : Int)) := by
  have fields := s.pieces.computes_fields
  rw [pieces_text] at fields
  obtain ⟨year, month, day, hour, minute, second⟩ := fields
  exact ⟨verdict_decimal 4 h.year ▸ year, verdict_decimal 2 h.month ▸ month,
    verdict_decimal 2 h.day ▸ day, verdict_decimal 2 h.hour ▸ hour,
    verdict_decimal 2 h.minute ▸ minute, verdict_decimal 2 h.second ▸ second⟩

theorem marks_text (s : Stamp) : (s.text.getD 4 0 != Word.cast 8 45 ||
    s.text.getD 7 0 != Word.cast 8 45 || s.text.getD 10 0 != Word.cast 8 84 ||
    s.text.getD 13 0 != Word.cast 8 58 || s.text.getD 16 0 != Word.cast 8 58) = false := by
  have marks := s.pieces.marks_of_text
  rw [pieces_text] at marks
  change _ = Pieces.canonical at marks
  simp only [Pieces.canonical, Prod.mk.injEq] at marks
  obtain ⟨first, second, third, fourth, fifth⟩ := marks
  rw [first, second, third, fourth, fifth]
  rfl

/-- The last byte ends a fraction and does not start one. -/
theorem zulu : ∀ b ∈ (ascii "Z").head?, ¬ IsDigit b ∧ b ≠ Word.cast 8 46 := by
  intro b hb
  have first : (ascii "Z").head? = some (Word.cast 8 90) := rfl
  rw [first] at hb
  obtain rfl := Option.some.inj hb
  decide

/-- **The text of a stamp** is read as the stamp. -/
theorem parse_text {s : Stamp} (h : s.Spellable) : parseTimestamp s.text = s.check := by
  obtain ⟨year, month, day, hour, minute, second⟩ := computes_fields h
  have rest := s.pieces.drop_text
  have long := s.pieces.length_text
  rw [pieces_text] at rest long
  have nanos : Computes (parseNanos (s.text.drop 19))
      (.ok ((fractionNanos s.fraction : Int), ascii "Z")) := by
    rw [rest]
    exact computes_parseNanos h.fraction (fun b hb => (zulu b hb).1) fun _ b hb => (zulu b hb).2
  unfold parseTimestamp
  rw [passed_bind (by simpa using long), passed_bind s.marks_text, year.bind_eq, month.bind_eq,
    day.bind_eq, hour.bind_eq, minute.bind_eq, second.bind_eq, nanos.bind_eq]
  rfl

end Stamp

namespace Pieces

/-- A field that is read is that of its number. -/
theorem decimal_of_verdict {ds : Text} {v : Int} (h : verdict ds = .ok v) (w : Nat)
    (len : ds.length = w) :
    decimal w (decimalValue 0 ds) = ds ∧ decimalValue 0 ds < 10 ^ w := by
  subst len
  unfold verdict at h
  split at h
  · rename_i digits
    exact decimal_decimalValue digits
  · cases h

/-- Marks that pass the comparison are the canonical ones. -/
theorem marks_of_passed {p : Pieces} (h : (p.text.getD 4 0 != Word.cast 8 45 ||
    p.text.getD 7 0 != Word.cast 8 45 || p.text.getD 10 0 != Word.cast 8 84 ||
    p.text.getD 13 0 != Word.cast 8 58 || p.text.getD 16 0 != Word.cast 8 58) = false) :
    p.marks = canonical := by
  rw [← p.marks_of_text]
  simp only [Bool.or_eq_false_iff, bne_eq_false_iff_eq] at h
  obtain ⟨⟨⟨⟨first, second⟩, third⟩, fourth⟩, fifth⟩ := h
  rw [first, second, third, fourth, fifth]
  rfl

end Pieces

/-- **Every text** that is not refused is that of a stamp. -/
theorem Stamp.exists_of_noError {text : Text} (h : NoError (parseTimestamp text)) :
    ∃ s : Stamp, s.Spellable ∧ s.text = text := by
  unfold parseTimestamp at h
  obtain ⟨long, h⟩ := noError_check h
  obtain ⟨p, rfl⟩ := Pieces.exists_of_length (by simpa using long)
  obtain ⟨marks, h⟩ := noError_check h
  obtain ⟨year, month, day, hour, minute, second⟩ := p.computes_fields
  obtain ⟨_, is_year, h⟩ := h.bind year
  obtain ⟨_, is_month, h⟩ := h.bind month
  obtain ⟨_, is_day, h⟩ := h.bind day
  obtain ⟨_, is_hour, h⟩ := h.bind hour
  obtain ⟨_, is_minute, h⟩ := h.bind minute
  obtain ⟨_, is_second, h⟩ := h.bind second
  rw [p.drop_text] at h
  obtain ⟨fraction, rest, is_fraction, split, read⟩ | ⟨e, refused⟩ := parseNanos_cases p.rest
  · obtain ⟨_, ⟨⟩, h⟩ := h.bind read
    obtain ⟨end_mark, -⟩ := noError_check h
    obtain rfl : rest = ascii "Z" := by simpa using end_mark
    obtain ⟨year, year_lt⟩ := Pieces.decimal_of_verdict is_year 4 p.year_length
    obtain ⟨month, month_lt⟩ := Pieces.decimal_of_verdict is_month 2 p.month_length
    obtain ⟨day, day_lt⟩ := Pieces.decimal_of_verdict is_day 2 p.day_length
    obtain ⟨hour, hour_lt⟩ := Pieces.decimal_of_verdict is_hour 2 p.hour_length
    obtain ⟨minute, minute_lt⟩ := Pieces.decimal_of_verdict is_minute 2 p.minute_length
    obtain ⟨second, second_lt⟩ := Pieces.decimal_of_verdict is_second 2 p.second_length
    refine ⟨{ date := ⟨decimalValue 0 p.year, decimalValue 0 p.month, decimalValue 0 p.day⟩
              hour := decimalValue 0 p.hour, minute := decimalValue 0 p.minute
              second := decimalValue 0 p.second, fraction },
      ⟨year_lt, month_lt, day_lt, hour_lt, minute_lt, second_lt, is_fraction⟩, ?_⟩
    rw [← Stamp.pieces_text]
    simp only [Stamp.pieces, Pieces.text, year, month, day, hour, minute, second, split,
      Pieces.marks_of_passed marks]
  · obtain ⟨_, no, -⟩ := h.bind refused
    cases no

/-! ## Days -/

theorem isLeap_eq (year : Nat) : isLeap year = decide (IsLeap year) := by
  rw [Bool.eq_iff_iff, decide_eq_true_iff]
  unfold isLeap IsLeap
  simp only [Bool.or_eq_true, Bool.and_eq_true, decide_eq_true_eq, bne_iff_ne, ne_eq,
    Int.tmod_eq_emod_of_nonneg (Int.natCast_nonneg year)]
  omega

/-- `days_in_month` is the length of the month. -/
theorem daysInMonth_eq (year month : Nat) : daysInMonth year month = monthLength year month := by
  by_cases inside : 1 ≤ month ∧ month ≤ 12
  · obtain ⟨lo, hi⟩ := inside
    unfold daysInMonth
    rw [isLeap_eq]
    by_cases leap : IsLeap year <;> interval_cases month <;> simp [monthDays, monthLength, leap]
  · have outside : (decide (month < 1) || decide (12 < month)) = true := by
      simp only [Bool.or_eq_true, decide_eq_true_eq]
      omega
    unfold daysInMonth
    rw [if_pos outside]
    unfold monthLength
    split <;> first | rfl | omega

/-- The calendar repeats itself every 400 years. -/
theorem marchDay_era (y : Int) : marchDay y = y / 400 * 146097 +
    ((y - y / 400 * 400).toNat * 365 + (y - y / 400 * 400).toNat / 4 -
      (y - y / 400 * 400).toNat / 100 : Nat) + 60 := by
  unfold marchDay
  omega

/-- The epoch. -/
theorem dayNumber_epoch : (dayNumber ⟨1970, 1, 1⟩ : Int) = 719528 := by
  rw [dayNumber_eq_march (by constructor <;> decide)]
  rfl

/-- The era of a year. -/
theorem computes_eraOf {y : Int} (lo : -1 ≤ y) (hi : y < 10000) :
    Computes (eraOf y) (.ok (y / 400)) := by
  unfold eraOf
  by_cases pos : 0 ≤ y
  · rw [if_pos pos, Int.tdiv_eq_ediv_of_nonneg pos]
    exact computes_pure _
  · obtain rfl : y = -1 := by omega
    rfl

/-- `days_from_civil` counts from the epoch on. -/
theorem computes_daysFromCivil {d : Date} (valid : d.Valid) (year : d.year < 10000) :
    Computes (daysFromCivil d.year d.month d.day)
      (.ok ((dayNumber d : Int) - dayNumber ⟨1970, 1, 1⟩)) := by
  have count := dayNumber_eq_march valid
  have month := valid.month_le
  have day := valid.day_pos
  have day_le : d.day ≤ 31 := by
    have le := valid.day_le
    have most : monthLength d.year d.month ≤ 31 := by
      unfold monthLength
      split <;> (try split) <;> omega
    omega
  have march := marchDay_era (d.year - (if d.month ≤ 2 then 1 else 0))
  have shift : (153 * monthShift d.month + 2) / 5 ≤ 400 := by
    unfold monthShift
    split <;> omega
  have lo : (-1 : Int) ≤ d.year - (if d.month ≤ 2 then 1 else 0) := by
    split <;> omega
  have hi : (d.year - (if d.month ≤ 2 then 1 else 0) : Int) < 10000 := by
    split <;> omega
  unfold daysFromCivil
  refine computes_bind_ok (computes_signed (fits_64.mpr (by omega))) ?_
  refine computes_bind_ok (computes_eraOf lo hi) ?_
  rw [dayNumber_epoch, count, march]
  change Computes (do
    let start ← signed 64 _
    let yoe ← signed 64 _
    let days ← signed 64 _
    let days ← signed 64 (days + (yoe.toNat * 365 + yoe.toNat / 4 - yoe.toNat / 100 +
      ((153 * monthShift d.month + 2) / 5 + d.day - 1) : Nat))
    signed 64 (days - 719468)) _
  generalize (d.year - (if d.month ≤ 2 then 1 else 0) : Int) = y at *
  generalize (153 * monthShift d.month + 2) / 5 = doy at *
  refine computes_bind_ok (computes_signed (fits_64.mpr (by omega))) ?_
  refine computes_bind_ok (computes_signed (fits_64.mpr (by omega))) ?_
  refine computes_bind_ok (computes_signed (fits_64.mpr (by omega))) ?_
  refine computes_bind_ok (computes_signed (fits_64.mpr (by omega))) ?_
  have same : ∀ n : Nat, y / 400 * 146097 + (n : Int) + 60 + doy + d.day - 1 - 719528 =
      y / 400 * 146097 + (n + (doy + d.day - 1) : Nat) - 719468 := by
    omega
  rw [same]
  exact computes_signed (fits_64.mpr (by omega))

/-! ## The verdict on a stamp -/

namespace Stamp

/-- What is left of the check once the date and the time of day exist. -/
def finish (s : Stamp) : Checked Error Timestamp := do
  Checked.lift <| refuse (s.seconds < 0) .invalidArgument "timestamp precedes the Unix epoch"
  let total ← signed 64 (s.seconds * nsPerSecond)
  let total ← signed 64 (total + fractionNanos s.fraction)
  Checked.lift <| refuse (maxTimestampNs < total) .overflow "timestamp exceeds the supported domain"
  pure (I64.wrap total)

variable {s : Stamp}

/-- A date or a time of day that does not exist is refused. -/
theorem check_of_not_exists (h : ¬ s.Exists) : ∃ e, Computes s.check (.error e) := by
  unfold check
  by_cases month : (decide ((s.date.month : Int) < 1) || decide (12 < (s.date.month : Int))) = true
  · exact ⟨_, computes_refused month⟩
  by_cases day : (decide ((s.date.day : Int) < 1) ||
      decide (daysInMonth s.date.year s.date.month < s.date.day)) = true
  · exact ⟨_, computes_passed (Bool.eq_false_iff.mpr month) (computes_refused day)⟩
  by_cases time : (decide (23 < (s.hour : Int)) || decide (59 < (s.minute : Int)) ||
      decide (59 < (s.second : Int))) = true
  · exact ⟨_, computes_passed (Bool.eq_false_iff.mpr month)
      (computes_passed (Bool.eq_false_iff.mpr day) (computes_refused time))⟩
  · simp only [daysInMonth_eq, Bool.or_eq_true, decide_eq_true_eq, not_or, not_lt] at month day time
    exact absurd ⟨⟨by omega, by omega, by omega, by omega⟩, by omega, by omega, by omega⟩ h

/-- The days of four digits of years. -/
theorem dayNumber_lt_of_year {d : Date} (valid : d.Valid) (year : d.year < 10000) :
    dayNumber d < 4000000 := by
  have count := dayNumber_eq_march valid
  have le := valid.day_le
  have month := valid.month_le
  have most : monthLength d.year d.month ≤ 31 := by
    unfold monthLength
    split <;> (try split) <;> omega
  unfold marchDay monthShift at count
  split at count <;> split at count <;> omega

/-- No operation on the seconds overflows. -/
theorem check_of_exists (h : s.Exists) (year : s.date.year < 10000) : s.check = s.finish := by
  have bound := dayNumber_lt_of_year h.date year
  have epoch := dayNumber_epoch
  have month_pos := h.date.month_pos
  have month_le := h.date.month_le
  have day_pos := h.date.day_pos
  have day_le := h.date.day_le
  have hour := h.hour
  have minute := h.minute
  have second := h.second
  have month : (decide ((s.date.month : Int) < 1) || decide (12 < (s.date.month : Int))) = false := by
    simp only [Bool.or_eq_false_iff, decide_eq_false_iff_not]
    omega
  have day : (decide ((s.date.day : Int) < 1) ||
      decide (daysInMonth s.date.year s.date.month < s.date.day)) = false := by
    simp only [daysInMonth_eq, Bool.or_eq_false_iff, decide_eq_false_iff_not]
    omega
  have time : (decide (23 < (s.hour : Int)) || decide (59 < (s.minute : Int)) ||
      decide (59 < (s.second : Int))) = false := by
    simp only [Bool.or_eq_false_iff, decide_eq_false_iff_not]
    omega
  unfold check instantOf
  rw [passed_bind month, passed_bind day, passed_bind time, Int.toNat_natCast, Int.toNat_natCast,
    (computes_daysFromCivil h.date year).bind_eq,
    (computes_signed (fits_64.mpr (by omega))).bind_eq,
    (computes_signed (fits_32.mpr (by omega))).bind_eq,
    (computes_signed (fits_64.mpr (by omega))).bind_eq,
    (computes_signed (fits_32.mpr (by omega))).bind_eq,
    (computes_signed (fits_64.mpr (by omega))).bind_eq,
    (computes_signed (fits_64.mpr (by omega))).bind_eq]
  rfl

/-- The sign of an instant is that of its seconds. -/
theorem instant_nonneg (h : Fraction s.fraction) : 0 ≤ s.instant ↔ 0 ≤ s.seconds := by
  have nanos := h.nanos_lt
  unfold instant
  omega

theorem finish_of_neg (h : Fraction s.fraction) (neg : s.instant < 0) :
    ∃ e, Computes s.finish (.error e) := by
  have nonneg := instant_nonneg h
  exact ⟨_, computes_refused (by simp only [decide_eq_true_eq]; omega)⟩

theorem finish_of_beyond (h : Fraction s.fraction) (beyond : 2 ^ 63 ≤ s.instant) :
    Overflows s.finish := by
  have nonneg := instant_nonneg h
  unfold finish
  rw [passed_bind (by simp only [decide_eq_false_iff_not]; omega)]
  by_cases scaled : Fits 64 (s.seconds * nsPerSecond)
  · refine overflows_bind (computes_signed scaled) ?_
    rw [Overflows, run_bind, overflows_signed]
    · rfl
    · rw [fits_64]
      unfold instant at beyond
      unfold nsPerSecond
      omega
  · rw [Overflows, run_bind, overflows_signed scaled]
    rfl

theorem computes_finish (h : Fraction s.fraction) (nonneg : 0 ≤ s.instant)
    (inside : s.instant < 2 ^ 63) : Computes s.finish (if s.instant ≤ maxTimestampNs then
      .ok (I64.wrap s.instant)
      else .error (makeError .overflow "timestamp exceeds the supported domain")) := by
  have seconds := (instant_nonneg h).mp nonneg
  unfold finish
  rw [passed_bind (by simpa using seconds)]
  unfold instant at inside ⊢
  unfold nsPerSecond
  refine computes_bind_ok (computes_signed (fits_64.mpr (by omega))) ?_
  refine computes_bind_ok (computes_signed (fits_64.mpr (by omega))) ?_
  by_cases le : s.seconds * 1000000000 + fractionNanos s.fraction ≤ maxTimestampNs
  · rw [if_pos le]
    exact computes_passed (by simpa using le) (computes_pure _)
  · rw [if_neg le]
    exact computes_refused (by simpa using le)

end Stamp

/-! ## Exactness -/

/-- The text is of the canonical form and expresses the instant `t` of the supported domain. -/
def Expresses (text : Text) (t : Timestamp) : Prop :=
  ∃ s : Stamp, s.Spellable ∧ s.text = text ∧ s.Exists ∧ 0 ≤ s.instant ∧
    s.instant ≤ maxTimestampNs ∧ t.val = s.instant

/-- The text expresses an instant beyond 64 bits. -/
def Beyond (text : Text) : Prop :=
  ∃ s : Stamp, s.Spellable ∧ s.text = text ∧ s.Exists ∧ 2 ^ 63 ≤ s.instant

theorem Expresses.computes {text : Text} {t : Timestamp} (h : Expresses text t) :
    Computes (parseTimestamp text) (.ok t) := by
  obtain ⟨s, spell, rfl, exist, nonneg, le, same⟩ := h
  have run := Stamp.computes_finish spell.fraction nonneg (by unfold maxTimestampNs at le; omega)
  rw [if_pos le, ← same, I64.wrap_val] at run
  rw [Stamp.parse_text spell, Stamp.check_of_exists exist spell.year]
  exact run

theorem Beyond.overflows {text : Text} (h : Beyond text) : Overflows (parseTimestamp text) := by
  obtain ⟨s, spell, rfl, exist, beyond⟩ := h
  rw [Stamp.parse_text spell, Stamp.check_of_exists exist spell.year]
  exact Stamp.finish_of_beyond spell.fraction beyond

/-- **Every text** is refused, expresses an instant of the domain, or one beyond 64 bits. -/
theorem parse_cases (text : Text) : (∃ e, Computes (parseTimestamp text) (.error e)) ∨
    (∃ t, Expresses text t) ∨ Beyond text := by
  by_cases refused : NoError (parseTimestamp text)
  · obtain ⟨s, spell, rfl⟩ := Stamp.exists_of_noError refused
    rw [Stamp.parse_text spell]
    by_cases exist : s.Exists
    · by_cases nonneg : 0 ≤ s.instant
      · by_cases beyond : 2 ^ 63 ≤ s.instant
        · exact .inr (.inr ⟨s, spell, rfl, exist, beyond⟩)
        · by_cases le : s.instant ≤ maxTimestampNs
          · refine .inr (.inl ⟨I64.wrap s.instant, s, spell, rfl, exist, nonneg, le, ?_⟩)
            exact I64.val_wrap_of_range (by omega) (by omega)
          · have run := Stamp.computes_finish spell.fraction nonneg (by omega)
            rw [if_neg le, ← Stamp.check_of_exists exist spell.year] at run
            exact .inl ⟨_, run⟩
      · rw [Stamp.check_of_exists exist spell.year]
        exact .inl (Stamp.finish_of_neg spell.fraction (by omega))
    · exact .inl (Stamp.check_of_not_exists exist)
  · left
    simpa [NoError] using refused

/-- **The parser is exact**, and no operation overflows, on exactly the texts that do not denote an
instant beyond 64 bits. -/
theorem parse_exact_iff (text : Text) :
    (∃ r, Computes (parseTimestamp text) r ∧ ∀ t, r = .ok t ↔ Expresses text t) ↔ ¬ Beyond text := by
  constructor
  · rintro ⟨r, run, -⟩ beyond
    exact run.not_overflows beyond.overflows
  · intro inside
    obtain ⟨e, refused⟩ | ⟨t, expresses⟩ | beyond := parse_cases text
    · refine ⟨.error e, refused, fun t => ⟨fun no => (by cases no), fun expresses => ?_⟩⟩
      exact refused.unique expresses.computes
    · refine ⟨.ok t, expresses.computes, fun t' => ⟨fun same => ?_, fun expresses' => ?_⟩⟩
      · obtain rfl := Except.ok.inj same
        exact expresses
      · exact expresses.computes.unique expresses'.computes
    · exact absurd beyond inside

/-- The first instant of the year 2300 is beyond 64 bits. -/
theorem parse_not_exact : ¬ ∀ text, ∃ r, Computes (parseTimestamp text) r ∧
    ∀ t, r = .ok t ↔ Expresses text t := by
  intro all
  obtain ⟨r, run, -⟩ := all (ascii "2300-01-01T00:00:00Z")
  have overflow : Overflows (parseTimestamp (ascii "2300-01-01T00:00:00Z")) := rfl
  exact run.not_overflows overflow

end Brf
