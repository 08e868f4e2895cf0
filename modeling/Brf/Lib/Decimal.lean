import Brf.Lib.Machine
import Mathlib.Data.List.Induction

/-!
# Decimal fields

Numbers written with a fixed number of ASCII digits, as in dates and counters.

* `decimal w n` is the field of `w` digits; a larger number is cut to its last digits.
* `decimalValue` reads a string of digits, most significant first.

Results: `decimalValue_decimal` and `decimal_decimalValue` (the two are inverse on fields), and
`decimal_lt` with `append_lt_append` (fields of one width are ordered as their numbers).
-/

namespace Brf.Lib

/-- The digit of `n`. -/
def digit (n : Nat) : Byte := Word.cast 8 (48 + n % 10)

/-- `'0' <= b && b <= '9'`. -/
def IsDigit (b : Byte) : Prop := 48 ≤ b.val ∧ b.val ≤ 57

instance (b : Byte) : Decidable (IsDigit b) := inferInstanceAs (Decidable (_ ∧ _))

/-- The field of `w` digits. -/
def decimal : Nat → Nat → List Byte
  | 0, _ => []
  | w + 1, n => decimal w (n / 10) ++ [digit n]

/-- The number that digits spell behind `front`. -/
def decimalValue (front : Nat) (digits : List Byte) : Nat :=
  digits.foldl (fun value b => value * 10 + (b.val - 48)) front

/-! ## Digits -/

@[simp] theorem digit_val (n : Nat) : (digit n).val = 48 + n % 10 := by
  simp only [digit, Word.val_cast]
  omega

theorem isDigit_digit (n : Nat) : IsDigit (digit n) := by
  simp only [IsDigit, digit_val]
  omega

theorem digit_of_isDigit {b : Byte} (h : IsDigit b) (front : Nat) :
    digit (front * 10 + (b.val - 48)) = b := by
  obtain ⟨lo, hi⟩ := h
  apply Fin.ext
  rw [digit_val]
  omega

/-! ## Fields -/

@[simp] theorem decimal_length : ∀ w n, (decimal w n).length = w
  | 0, _ => rfl
  | w + 1, n => by simp [decimal, decimal_length w]

theorem isDigit_of_mem_decimal : ∀ {w n : Nat} {b : Byte}, b ∈ decimal w n → IsDigit b
  | 0, _, _, h => by simp [decimal] at h
  | w + 1, n, b, h => by
    rcases List.mem_append.mp h with h | h
    · exact isDigit_of_mem_decimal h
    · rw [List.mem_singleton.mp h]
      exact isDigit_digit n

theorem decimalValue_append (front : Nat) (xs ys : List Byte) :
    decimalValue front (xs ++ ys) = decimalValue (decimalValue front xs) ys :=
  List.foldl_append

@[simp] theorem decimalValue_cons (front : Nat) (b : Byte) (digits : List Byte) :
    decimalValue front (b :: digits) = decimalValue (front * 10 + (b.val - 48)) digits :=
  List.foldl_cons

/-- Further digits make a number no smaller. -/
theorem le_decimalValue (front : Nat) (digits : List Byte) : front ≤ decimalValue front digits := by
  induction digits generalizing front with
  | nil => exact le_rfl
  | cons b digits ih =>
    have step : front ≤ front * 10 + (b.val - 48) := by omega
    exact le_trans step (ih _)

/-- **Reading** a field gives its number. -/
theorem decimalValue_decimal : ∀ {w n : Nat}, n < 10 ^ w → decimalValue 0 (decimal w n) = n
  | 0, n, small => by
    obtain rfl : n = 0 := by simpa using small
    rfl
  | w + 1, n, small => by
    have front : n / 10 < 10 ^ w := by
      rw [Nat.pow_succ] at small
      omega
    rw [decimal, decimalValue_append, decimalValue_decimal front]
    simp only [decimalValue, List.foldl_cons, List.foldl_nil, digit_val]
    omega

/-- **Writing** what digits spell gives the digits. -/
theorem decimal_decimalValue {digits : List Byte} (h : ∀ b ∈ digits, IsDigit b) :
    decimal digits.length (decimalValue 0 digits) = digits ∧
      decimalValue 0 digits < 10 ^ digits.length := by
  induction digits using List.reverseRecOn with
  | nil => exact ⟨rfl, by decide⟩
  | append_singleton digits b ih =>
    obtain ⟨same, small⟩ := ih fun c hc => h c (List.mem_append_left _ hc)
    have last := h b (by simp)
    have value : decimalValue 0 (digits ++ [b]) = decimalValue 0 digits * 10 + (b.val - 48) := by
      rw [decimalValue_append]
      rfl
    obtain ⟨lo, hi⟩ := last
    constructor
    · have front : (decimalValue 0 digits * 10 + (b.val - 48)) / 10 = decimalValue 0 digits := by
        omega
      rw [value, List.length_append, List.length_singleton, decimal, front, same,
        digit_of_isDigit ⟨lo, hi⟩]
    · have grow : 10 ^ (digits.length + 1) = 10 ^ digits.length * 10 := Nat.pow_succ _ _
      rw [value, List.length_append, List.length_singleton, grow]
      omega

/-! ## Order -/

/-- Strings with fronts of one length are ordered by the fronts first. -/
theorem append_lt_append {α : Type} [LT α] {x y : List α} :
    ∀ {a b : List α}, a.length = b.length → a < b → a ++ x < b ++ y
  | _, [], _, h => absurd h (List.not_lt_nil _)
  | [], _ :: _, len, _ => by simp at len
  | c :: a, d :: b, len, h => by
    rw [List.cons_append, List.cons_append, List.cons_lt_cons_iff]
    rcases List.cons_lt_cons_iff.mp h with first | ⟨same, rest⟩
    · exact .inl first
    · exact .inr ⟨same, append_lt_append (by simpa using len) rest⟩

/-- **Fields** of one width are ordered as their numbers. -/
theorem decimal_lt : ∀ {w m n : Nat}, n < 10 ^ w → m < n → decimal w m < decimal w n
  | 0, m, n, small, h => by
    simp only [Nat.pow_zero] at small
    omega
  | w + 1, m, n, small, h => by
    rw [Nat.pow_succ] at small
    rw [decimal, decimal]
    by_cases front : m / 10 < n / 10
    · exact append_lt_append (by simp) (decimal_lt (by omega) front)
    · have same : m / 10 = n / 10 := by omega
      rw [same]
      refine List.append_left_lt (List.cons_lt_cons_iff.mpr (.inl ?_))
      show (digit m).val < (digit n).val
      rw [digit_val, digit_val]
      omega

end Brf.Lib
