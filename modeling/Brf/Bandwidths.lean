import Brf.Lib.Decimal
import Brf.Spelling

/-!
# Reading bandwidths

Model of `parse_uint64_decimal` (`src/identity.cpp`), `make_bandwidth` (`bandwidth.hpp`) and
`parse_bandwidth` (`src/bandwidth.cpp`).

* Numbers are 64-bit words, and the product of number and scale is taken modulo `2 ^ 64` before it is
  compared with the bound.

Results:
* `parseUint64Decimal_eq_ok` — numeric fields are read exactly.
* `parse_bandwidth_exact_iff` — bandwidths are read exactly unless the product passes a multiple of
  `2 ^ 64` by no more than the bound.
-/

namespace Brf

open Brf.Lib

/-! ## Numeric fields -/

/-- The loop of `parse_uint64_decimal`; `value` has been read. -/
def parseDecimal : Word 64 → Text → Result (Word 64)
  | value, [] => .ok value
  | value, ch :: rest => do
    refuse (ch.val < 48 || 57 < ch.val) .invalidArgument
      "numeric field contains a non-digit character"
    let digit := ch.val - 48
    refuse ((2 ^ 64 - 1 - digit) / 10 < value.val) .overflow "numeric field overflows 64 bits"
    parseDecimal (Word.cast 64 (value.val * 10 + digit)) rest

/-- `parse_uint64_decimal`. -/
def parseUint64Decimal (text : Text) : Result (Word 64) := do
  refuse text.isEmpty .invalidArgument "empty numeric field"
  refuse (20 < text.length) .overflow "numeric field is too long"
  parseDecimal (Word.cast 64 0) text

theorem parseDecimal_eq_ok {value out : Word 64} {text : Text} :
    parseDecimal value text = .ok out ↔ (∀ b ∈ text, IsDigit b) ∧
      decimalValue value.val text < 2 ^ 64 ∧ out.val = decimalValue value.val text := by
  induction text generalizing value with
  | nil =>
    have small := value.isLt
    simp [parseDecimal, decimalValue, Fin.ext_iff, eq_comm]
  | cons b rest ih =>
    have grows := le_decimalValue (value.val * 10 + (b.val - 48)) rest
    simp only [parseDecimal, check_bind_eq_ok, refuse_eq_ok, ih, List.forall_mem_cons,
      decimalValue_cons, Word.val_cast]
    by_cases is_digit : IsDigit b
    · have outside : (decide (b.val < 48) || decide (57 < b.val)) = false := by
        simp only [Bool.or_eq_false_iff, decide_eq_false_iff_not]
        unfold IsDigit at is_digit
        omega
      by_cases small : value.val * 10 + (b.val - 48) < 2 ^ 64
      · have fits : decide ((2 ^ 64 - 1 - (b.val - 48)) / 10 < value.val) = false := by
          simp only [decide_eq_false_iff_not]
          unfold IsDigit at is_digit
          omega
        simp only [outside, fits, is_digit, Nat.mod_eq_of_lt small, true_and]
      · have large : decide ((2 ^ 64 - 1 - (b.val - 48)) / 10 < value.val) = true := by
          simp only [decide_eq_true_eq]
          unfold IsDigit at is_digit
          omega
        have never : ¬ decimalValue (value.val * 10 + (b.val - 48)) rest < 2 ^ 64 := by omega
        simp only [large, never, reduceCtorEq, false_and, and_false]
    · have outside : (decide (b.val < 48) || decide (57 < b.val)) = true := by
        simp only [Bool.or_eq_true, decide_eq_true_eq]
        unfold IsDigit at is_digit
        omega
      simp only [outside, is_digit, reduceCtorEq, false_and]

/-- **Numeric fields** are read exactly. -/
theorem parseUint64Decimal_eq_ok {text : Text} {out : Word 64} :
    parseUint64Decimal text = .ok out ↔ text ≠ [] ∧ text.length ≤ 20 ∧ (∀ b ∈ text, IsDigit b) ∧
      decimalValue 0 text < 2 ^ 64 ∧ out.val = decimalValue 0 text := by
  have zero : (Word.cast 64 0).val = 0 := rfl
  simp only [parseUint64Decimal, check_bind_eq_ok, refuse_eq_ok, parseDecimal_eq_ok, zero,
    List.isEmpty_eq_false_iff, decide_eq_false_iff_not, not_lt]

/-! ## Bandwidths -/

/-- `make_bandwidth`. -/
def makeBandwidth (bps : I64) : Result Bandwidth := do
  refuse (bps.val ≤ 0) .invalidBandwidth "bandwidth must be strictly positive"
  refuse (maxBandwidthBps < bps.val) .invalidBandwidth
    "bandwidth exceeds the maximum representable value"
  pure bps

/-- The suffixes of `kScales`, with what each stands for. -/
def suffixes : List (Byte × Nat) :=
  [(Word.cast 8 84, 1000000000000), (Word.cast 8 71, 1000000000), (Word.cast 8 77, 1000000),
    (Word.cast 8 107, 1000)]

/-- The factor that the last character of a text stands for, and the digits in front of it. -/
def splitSuffix (text : Text) : Nat × Text :=
  match suffixes.find? fun scale => text.getLast? = some scale.1 with
  | some (_, factor) => (factor, text.dropLast)
  | none => (1, text)

/-- `parse_bandwidth`. -/
def parseBandwidth (text : Text) : Result Bandwidth := do
  refuse text.isEmpty .invalidBandwidth "bandwidth field is empty"
  let (factor, digits) := splitSuffix text
  let value ← parseUint64Decimal digits
  refuse (maxBandwidthBps < value.val) .invalidBandwidth
    "bandwidth exceeds the maximum representable value"
  let scaled := Word.cast 64 (value.val * factor)
  refuse (maxBandwidthBps < scaled.val) .overflow
    "bandwidth scaling overflows the representable range"
  makeBandwidth (I64.ofWord scaled)

/-- A numeric field followed by at most one suffix. -/
inductive Scaled : Text → Text → Nat → Prop
  | plain (digits : Text) : Scaled digits digits 1
  | suffixed (digits : Text) {letter : Byte} {factor : Nat} (h : (letter, factor) ∈ suffixes) :
    Scaled (digits ++ [letter]) digits factor

/-- The text says `n` times `factor`: a number that `parse_uint64_decimal` accepts and a suffix. -/
def Amounts (text : Text) (n factor : Nat) : Prop :=
  ∃ digits value, Scaled text digits factor ∧ parseUint64Decimal digits = .ok value ∧ value.val = n

/-- `parse_bandwidth` returns the product that the text says when that is a bandwidth, and nothing
else. -/
def ParsesExactly (text : Text) : Prop :=
  ∀ b, parseBandwidth text = .ok b ↔ ∃ n factor : Nat, Amounts text n factor ∧
    0 < (n * factor : Int) ∧ (n * factor : Int) ≤ maxBandwidthBps ∧ b.val = n * factor

/-- The number is within the bound, and its product with the factor lies above a multiple of
`2 ^ 64` by no more than the bound. -/
def Wraps (text : Text) : Prop :=
  ∃ n factor : Nat, Amounts text n factor ∧ (n : Int) ≤ maxBandwidthBps ∧
    ∃ k > 0, (k * 2 ^ 64 < (n * factor : Int)) ∧ (n * factor : Int) ≤ k * 2 ^ 64 + maxBandwidthBps

theorem makeBandwidth_eq_ok {bps b : I64} :
    makeBandwidth bps = .ok b ↔ 0 < bps.val ∧ bps.val ≤ maxBandwidthBps ∧ bps = b := by
  simp only [makeBandwidth, check_bind_eq_ok, refuse_eq_ok, decide_eq_false_iff_not, not_le, not_lt,
    pure, Except.pure, Except.ok.injEq]

theorem factor_pos {letter : Byte} {factor : Nat} (h : (letter, factor) ∈ suffixes) : 0 < factor := by
  simp only [suffixes, List.mem_cons, Prod.mk.injEq, List.not_mem_nil, or_false] at h
  omega

/-- No suffix is a digit. -/
theorem not_isDigit_suffix {letter : Byte} {factor : Nat} (h : (letter, factor) ∈ suffixes) :
    ¬ IsDigit letter := by
  simp only [suffixes, List.mem_cons, Prod.mk.injEq, List.not_mem_nil, or_false] at h
  rcases h with ⟨rfl, -⟩ | ⟨rfl, -⟩ | ⟨rfl, -⟩ | ⟨rfl, -⟩ <;> decide

/-- Every suffix stands for one factor. -/
theorem find_suffix {letter : Byte} {factor : Nat} (h : (letter, factor) ∈ suffixes) :
    suffixes.find? (fun scale => some letter = some scale.1) = some (letter, factor) := by
  simp only [suffixes, List.mem_cons, Prod.mk.injEq, List.not_mem_nil, or_false] at h
  rcases h with ⟨rfl, rfl⟩ | ⟨rfl, rfl⟩ | ⟨rfl, rfl⟩ | ⟨rfl, rfl⟩ <;> rfl

/-- What a text says is found by its last character. -/
theorem amounts_iff {text : Text} {n factor : Nat} : Amounts text n factor ↔
    (splitSuffix text).1 = factor ∧
      ∃ value, parseUint64Decimal (splitSuffix text).2 = .ok value ∧ value.val = n := by
  constructor
  · rintro ⟨digits, value, scaled, parsed, number⟩
    cases scaled with
    | plain =>
      obtain ⟨some_text, -, all_digits, -⟩ := parseUint64Decimal_eq_ok.mp parsed
      have none : suffixes.find? (fun scale => text.getLast? = some scale.1) = none := by
        rw [List.find?_eq_none]
        rintro ⟨letter, factor⟩ mem last
        have last : letter ∈ text := List.mem_of_getLast? (by simpa using last)
        exact not_isDigit_suffix mem (all_digits letter last)
      unfold splitSuffix
      rw [none]
      exact ⟨rfl, value, parsed, number⟩
    | suffixed digits h =>
      unfold splitSuffix
      simp only [List.getLast?_append, List.getLast?_singleton, Option.some_or]
      rw [find_suffix h]
      exact ⟨rfl, value, by simpa using parsed, number⟩
  · rintro ⟨rfl, value, parsed, number⟩
    refine ⟨_, value, ?_, parsed, number⟩
    unfold splitSuffix
    cases found : suffixes.find? fun scale => text.getLast? = some scale.1 with
    | none => exact .plain text
    | some scale =>
      have last : text.getLast? = some scale.1 := by simpa using List.find?_some found
      have whole : text.dropLast ++ [scale.1] = text := List.dropLast_append_getLast? _ last
      have suffixed := Scaled.suffixed text.dropLast (List.mem_of_find?_eq_some found)
      rwa [whole] at suffixed

theorem amounts_factor_pos {text : Text} {n factor : Nat} (h : Amounts text n factor) :
    0 < factor := by
  obtain ⟨digits, value, scaled, -⟩ := h
  cases scaled with
  | plain => exact Nat.one_pos
  | suffixed _ h => exact factor_pos h

/-- A text says one thing. -/
theorem Amounts.unique {text : Text} {n factor m factor' : Nat} (h : Amounts text n factor)
    (h' : Amounts text m factor') : n = m ∧ factor = factor' := by
  obtain ⟨rfl, value, parsed, rfl⟩ := amounts_iff.mp h
  obtain ⟨rfl, value', parsed', rfl⟩ := amounts_iff.mp h'
  rw [parsed, Except.ok.injEq] at parsed'
  exact ⟨congrArg Fin.val parsed', rfl⟩

/-- What the function does return: the product modulo `2 ^ 64`. -/
theorem parseBandwidth_eq_ok {text : Text} {b : Bandwidth} :
    parseBandwidth text = .ok b ↔ ∃ n factor : Nat, Amounts text n factor ∧
      (n : Int) ≤ maxBandwidthBps ∧ 0 < n * factor % 2 ^ 64 ∧
      ((n * factor % 2 ^ 64 : Nat) : Int) ≤ maxBandwidthBps ∧
      b.val = (n * factor % 2 ^ 64 : Nat) := by
  have whole : parseBandwidth text = .ok b ↔ text.isEmpty = false ∧
      ∃ value, parseUint64Decimal (splitSuffix text).2 = .ok value ∧
        (value.val : Int) ≤ maxBandwidthBps ∧
        ((Word.cast 64 (value.val * (splitSuffix text).1)).val : Int) ≤ maxBandwidthBps ∧
        makeBandwidth (I64.ofWord (Word.cast 64 (value.val * (splitSuffix text).1))) = .ok b := by
    unfold parseBandwidth
    rw [check_bind_eq_ok, refuse_eq_ok]
    simp only [↓check_bind_eq_ok, Result.bind_eq_ok, refuse_eq_ok, decide_eq_false_iff_not, not_lt]
  rw [whole]
  simp only [Word.val_cast, makeBandwidth_eq_ok]
  have sizes : (maxBandwidthBps : Int) = 1000000000000000 := rfl
  have cast : ∀ p : Nat, ((p % 2 ^ 64 : Nat) : Int) ≤ maxBandwidthBps →
      (I64.ofWord (Word.cast 64 p)).val = (p % 2 ^ 64 : Nat) := fun p small => by
    unfold I64.ofWord
    rw [I64.val_wrap_of_range (by omega) (by rw [Word.val_cast]; omega), Word.val_cast]
  constructor
  · rintro ⟨-, value, parsed, bounded, small, positive, -, rfl⟩
    rw [cast _ small] at positive ⊢
    exact ⟨value.val, _, amounts_iff.mpr ⟨rfl, value, parsed, rfl⟩, bounded, by omega, small, rfl⟩
  · rintro ⟨n, factor, said, bounded, positive, small, number⟩
    obtain ⟨rfl, value, parsed, rfl⟩ := amounts_iff.mp said
    refine ⟨?_, value, parsed, bounded, small, ?_, ?_, ?_⟩
    · cases text with
      | nil => cases parsed
      | cons c rest => rfl
    · rw [cast _ small]
      omega
    · rw [cast _ small]
      exact small
    · refine I64.ext ?_
      rw [cast _ small, number]

example : parseBandwidth (ascii "10G") = .ok (I64.wrap 10000000000) := by decide +kernel

/-- A product modulo `2 ^ 64` is within the bound, and is not the product. -/
theorem wraps_of_mod {p : Nat} (positive : 0 < p % 2 ^ 64)
    (small : ((p % 2 ^ 64 : Nat) : Int) ≤ maxBandwidthBps) (other : p % 2 ^ 64 ≠ p) :
    ∃ k > 0, (k * 2 ^ 64 < (p : Int)) ∧ (p : Int) ≤ k * 2 ^ 64 + maxBandwidthBps := by
  refine ⟨(p / 2 ^ 64 : Nat), ?_, ?_, ?_⟩ <;> omega

theorem mod_of_wraps {p : Nat} {k : Int} (above : k * 2 ^ 64 < (p : Int))
    (below : (p : Int) ≤ k * 2 ^ 64 + maxBandwidthBps) :
    ((p % 2 ^ 64 : Nat) : Int) = p - k * 2 ^ 64 := by
  have sizes : (maxBandwidthBps : Int) = 1000000000000000 := rfl
  omega

/-- A product that wraps around is read as another number. -/
theorem not_parsesExactly {text : Text} (h : Wraps text) : ¬ ParsesExactly text := by
  obtain ⟨n, factor, said, bounded, k, positive, above, below⟩ := h
  have sizes : (maxBandwidthBps : Int) = 1000000000000000 := rfl
  have left := mod_of_wraps (p := n * factor) (by exact_mod_cast above) (by exact_mod_cast below)
  intro exact
  have read : parseBandwidth text = .ok (I64.wrap (n * factor % 2 ^ 64 : Nat)) := by
    refine parseBandwidth_eq_ok.mpr ⟨n, factor, said, bounded, ?_, ?_, ?_⟩
    · push_cast at left
      omega
    · push_cast at left ⊢
      omega
    · exact I64.val_wrap_of_range (by omega) (by omega)
  obtain ⟨m, factor', said', -, small, number⟩ := (exact _).mp read
  obtain ⟨rfl, rfl⟩ := said.unique said'
  omega

/-- A text is read exactly unless its product wraps around. -/
theorem parse_bandwidth_exact_iff (text : Text) : ParsesExactly text ↔ ¬ Wraps text := by
  constructor
  · exact fun exact wraps => not_parsesExactly wraps exact
  · intro fits b
    have sizes : (maxBandwidthBps : Int) = 1000000000000000 := rfl
    rw [parseBandwidth_eq_ok]
    constructor
    · rintro ⟨n, factor, said, bounded, positive, small, number⟩
      by_cases same : n * factor % 2 ^ 64 = n * factor
      · rw [same] at positive small number
        push_cast at small number
        exact ⟨n, factor, said, by exact_mod_cast positive, small, number⟩
      · have around := wraps_of_mod positive small same
        push_cast at around
        exact absurd ⟨n, factor, said, bounded, around⟩ fits
    · rintro ⟨n, factor, said, positive, small, number⟩
      have whole : n * factor % 2 ^ 64 = n * factor := by
        refine Nat.mod_eq_of_lt ?_
        omega
      have le : n ≤ n * factor := Nat.le_mul_of_pos_right n (amounts_factor_pos said)
      refine ⟨n, factor, said, ?_, ?_, ?_, ?_⟩
      · omega
      · rw [whole]
        exact_mod_cast positive
      · rw [whole]
        exact_mod_cast small
      · rw [whole]
        exact_mod_cast number

/-- "18446745T" is 926290448384 more than `2 ^ 64`, and is read as that. -/
theorem parse_bandwidth_wrapped : ¬ ParsesExactly (ascii "18446745T") :=
  not_parsesExactly ⟨18446745, 1000000000000,
    amounts_iff.mpr ⟨by decide +kernel, Word.cast 64 18446745, by decide +kernel, by decide +kernel⟩,
    by decide, 1, by decide, by decide, by decide⟩

end Brf
