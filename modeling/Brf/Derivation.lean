import Mathlib.Tactic.Linarith
import Mathlib.Tactic.LinearCombination
import Mathlib.Data.Int.ModEq
import Brf.Lib.Checksum
import Brf.Reservation

/-!
# Derived identities

The members of a series have different identities: FNV-1a, though no cryptographic hash, is
injective in the last four bytes that it absorbs, and the index of a member has no more.

* `absorb`: one step of `fnv1a`, with the prime `2 ^ 40 + 435` modulo `2 ^ 64`.
* Two runs from one state differ by small multiples of the powers of that prime (`absorb_sub`), and
  such a sum is zero only if all of them are (`small_combination`).

Results: `absorb_four` and `deriveMemberId_injective`.
-/

namespace Brf

open Brf.Lib

/-- One step of `fnv1a`. -/
def absorb (state byte : Nat) : Nat := (state ^^^ byte) * 1099511628211 % 18446744073709551616

theorem fnv1a_append (seed : Nat) (data rest : List Byte) :
    fnv1a seed (data ++ rest) = fnv1a (fnv1a seed data) rest := List.foldl_append

theorem fnv1a_nil (seed : Nat) : fnv1a seed [] = seed := rfl

theorem fnv1a_cons (seed : Nat) (byte : Byte) (rest : List Byte) :
    fnv1a seed (byte :: rest) = fnv1a (absorb seed byte.val) rest := rfl

theorem absorb_lt (s b : Nat) : absorb s b < 18446744073709551616 := Nat.mod_lt _ (by decide)

/-! ## One byte -/

/-- The prime is odd: what it multiplies can be told from the product. -/
theorem absorb_inj {s t b d : Nat} (hs : s < 18446744073709551616) (ht : t < 18446744073709551616)
    (hb : b < 256) (hd : d < 256) (h : absorb s b = absorb t d) : s ^^^ b = t ^^^ d := by
  have below : ∀ x y, x < 18446744073709551616 → y < 256 → x ^^^ y < 18446744073709551616 := by
    intro x y hx hy
    have high := Checksum.xor_byte_div x hy
    omega
  have congruent : s ^^^ b ≡ t ^^^ d [MOD 18446744073709551616] :=
    Nat.ModEq.cancel_right_of_coprime (c := 1099511628211) (by decide) h
  exact congruent.eq_of_lt_of_lt (below s b hs hb) (below t d ht hd)

/-- The difference of two states, up to a multiple of the modulus. -/
theorem absorb_sub (s t b d : Nat) : ∃ k : Int, (absorb s b : Int) - absorb t d =
    1099511628211 * (((s ^^^ b : Nat) : Int) - (t ^^^ d : Nat)) + 18446744073709551616 * k := by
  unfold absorb
  generalize s ^^^ b = x
  generalize t ^^^ d = y
  refine ⟨(y * 1099511628211 / 18446744073709551616 : Int) -
    (x * 1099511628211 / 18446744073709551616 : Int), ?_⟩
  push_cast
  omega

/-! ## Four bytes -/

/-- The powers of the prime are independent: modulo `2 ^ 64` its square is `870 * 2 ^ 40 + 435 ^ 2`
and its cube is `567675 * 2 ^ 40 + 435 ^ 3`. -/
theorem small_combination {p q r e k : Int} (hp : -255 ≤ p ∧ p ≤ 255) (hq : -510 ≤ q ∧ q ≤ 510)
    (hr : -510 ≤ r ∧ r ≤ 510) (he : -255 ≤ e ∧ e ≤ 255)
    (h : 1099511627776 * (567675 * p + 870 * q + r) +
      (82312875 * p + 189225 * q + 435 * r) - e = 18446744073709551616 * k) :
    p = 0 ∧ q = 0 ∧ r = 0 ∧ e = 0 := by
  have low : 435 * (189225 * p + 435 * q + r) = e := by omega
  have none : 189225 * p + 435 * q + r = 0 := by
    clear h
    generalize 189225 * p + 435 * q + r = y at low ⊢
    omega
  have high : 567675 * p + 870 * q + r = 16777216 * k := by linarith
  have rest : 378450 * p + 435 * q = 16777216 * k := by linarith
  have bound : -1 ≤ p ∧ p ≤ 1 := by
    clear h low high rest
    omega
  have zero : k = 0 := by
    clear h low high none
    omega
  have turned : q = -870 * p := by linarith
  have first : p = 0 := by
    clear h low high none rest zero
    omega
  have second : q = 0 := by linarith
  exact ⟨first, second, by linarith, by linarith⟩

/-- **FNV-1a is injective in four bytes.** -/
theorem absorb_four {s b₁ b₂ b₃ b₄ d₁ d₂ d₃ d₄ : Nat} (hb₁ : b₁ < 256) (hb₂ : b₂ < 256)
    (hb₃ : b₃ < 256) (hb₄ : b₄ < 256) (hd₁ : d₁ < 256) (hd₂ : d₂ < 256) (hd₃ : d₃ < 256)
    (hd₄ : d₄ < 256) (h : absorb (absorb (absorb (absorb s b₁) b₂) b₃) b₄ =
      absorb (absorb (absorb (absorb s d₁) d₂) d₃) d₄) :
    b₁ = d₁ ∧ b₂ = d₂ ∧ b₃ = d₃ ∧ b₄ = d₄ := by
  have last := absorb_inj (absorb_lt _ _) (absorb_lt _ _) hb₄ hd₄ h
  have near : ∀ {x y : Nat}, y < 256 → -255 ≤ ((x ^^^ y : Nat) : Int) - x ∧
      ((x ^^^ y : Nat) : Int) - x ≤ 255 := by
    intro x y hy
    have high := Checksum.xor_byte_div x hy
    omega
  have near' : ∀ {x y z : Nat}, y < 256 → z < 256 →
      -255 ≤ ((x ^^^ y : Nat) : Int) - (x ^^^ z : Nat) ∧
        ((x ^^^ y : Nat) : Int) - (x ^^^ z : Nat) ≤ 255 := by
    intro x y z hy hz
    have high := Checksum.xor_byte_div x hy
    have high' := Checksum.xor_byte_div x hz
    omega
  obtain ⟨k₁, e₁⟩ := absorb_sub s s b₁ d₁
  obtain ⟨k₂, e₂⟩ := absorb_sub (absorb s b₁) (absorb s d₁) b₂ d₂
  obtain ⟨k₃, e₃⟩ := absorb_sub (absorb (absorb s b₁) b₂) (absorb (absorb s d₁) d₂) b₃ d₃
  have p := near' (x := s) hb₁ hd₁
  have q := near (x := absorb s b₁) hb₂
  have q' := near (x := absorb s d₁) hd₂
  have r := near (x := absorb (absorb s b₁) b₂) hb₃
  have r' := near (x := absorb (absorb s d₁) d₂) hd₃
  have high := Checksum.xor_byte_div (absorb (absorb (absorb s b₁) b₂) b₃) hb₄
  have high' := Checksum.xor_byte_div (absorb (absorb (absorb s d₁) d₂) d₃) hd₄
  rw [last] at high
  -- what the states differ by, and what the bytes change of it
  generalize hp : ((s ^^^ b₁ : Nat) : Int) - (s ^^^ d₁ : Nat) = x at p e₁
  generalize hq : ((absorb s b₁ ^^^ b₂ : Nat) : Int) - (absorb s d₁ ^^^ d₂ : Nat) -
    (absorb s b₁ - absorb s d₁) = y
  generalize hr : ((absorb (absorb s b₁) b₂ ^^^ b₃ : Nat) : Int) -
    (absorb (absorb s d₁) d₂ ^^^ d₃ : Nat) -
      (absorb (absorb s b₁) b₂ - absorb (absorb s d₁) d₂) = z
  generalize he : (absorb (absorb (absorb s b₁) b₂) b₃ : Int) -
    absorb (absorb (absorb s d₁) d₂) d₃ = e at e₃
  obtain ⟨rfl, rfl, rfl, rfl⟩ := small_combination (p := x) (q := y) (r := z) (e := e)
    (k := -(65536 * (1099511627776 + 1305) * x + 65536 * y + 1099511628211 ^ 2 * k₁ +
      1099511628211 * k₂ + k₃)) p (by omega) (by omega) (by omega)
    (by
      linear_combination -e₃ - 1099511628211 * e₂ - 1099511628211 ^ 2 * e₁ -
        1099511628211 * hr - 1099511628211 ^ 2 * hq)
  have first : b₁ = d₁ := Checksum.xor_cancel_left (s := s) (by omega)
  subst first
  have second : b₂ = d₂ := Checksum.xor_cancel_left (s := absorb s b₁) (by omega)
  subst second
  have third : b₃ = d₃ := Checksum.xor_cancel_left (s := absorb (absorb s b₁) b₂) (by omega)
  subst third
  exact ⟨rfl, rfl, rfl, Checksum.xor_cancel_left last⟩

/-! ## Members -/

/-- The four bytes of an index of 32 bits that may differ. -/
def indexBytes (k : Nat) : List Byte :=
  [Word.cast 8 (k / 256 / 256 / 256), Word.cast 8 (k / 256 / 256), Word.cast 8 (k / 256),
    Word.cast 8 k]

theorem beBytes_index {k : Nat} (small : k < 4294967296) :
    beBytes 8 k = [0, 0, 0, 0] ++ indexBytes k := by
  have high : k / 256 / 256 / 256 / 256 = 0 := by omega
  have spelled : beBytes 8 k = (leBytes 8 k).reverse := rfl
  rw [spelled]
  simp only [leBytes, high]
  rfl

theorem fnv1a_index (s k : Nat) : fnv1a s (indexBytes k) =
    absorb (absorb (absorb (absorb s (k / 256 / 256 / 256 % 256)) (k / 256 / 256 % 256))
      (k / 256 % 256)) (k % 256) := by
  have byte : ∀ v, (Word.cast 8 v).val = v % 256 := fun v => Word.val_cast (w := 8) v
  unfold indexBytes
  rw [fnv1a_cons, fnv1a_cons, fnv1a_cons, fnv1a_cons, fnv1a_nil, byte, byte, byte, byte]

/-- Identities from different indices of 32 bits are different. -/
theorem derive_injective {parent : Identity128} {i j : Nat} (hi : i < 4294967296)
    (hj : j < 4294967296) (h : parent.derive i = parent.derive j) : i = j := by
  have bytes := congrArg Identity128.bytes h
  unfold Identity128.derive fingerprint128 at bytes
  rw [Identity128.bytes_fromBytes (by simp), Identity128.bytes_fromBytes (by simp)] at bytes
  obtain ⟨lane, -⟩ := List.append_inj bytes (by simp)
  have hashes := congrArg beValue lane
  rw [beValue_beBytes, beValue_beBytes, fnv1a_append, fnv1a_append, beBytes_index hi,
    beBytes_index hj, fnv1a_append, fnv1a_append, fnv1a_index, fnv1a_index,
    show (256 : Nat) ^ 8 = 18446744073709551616 from by norm_num,
    Nat.mod_eq_of_lt (absorb_lt _ _), Nat.mod_eq_of_lt (absorb_lt _ _)] at hashes
  have digits := absorb_four (by omega) (by omega) (by omega) (by omega) (by omega) (by omega)
    (by omega) (by omega) hashes
  omega

/-- **The members of a series have different identities.** -/
theorem deriveMemberId_injective {series : ReservationSeriesId} {i j : Nat} (hi : i < 4294967296)
    (hj : j < 4294967296)
    (h : deriveMemberId series (Word.cast 64 i) = deriveMemberId series (Word.cast 64 j)) :
    i = j := by
  unfold deriveMemberId at h
  have same := derive_injective (i := (Word.cast 64 i).val) (j := (Word.cast 64 j).val)
    (by rw [Word.val_cast]; omega) (by rw [Word.val_cast]; omega) h
  rw [Word.val_cast, Word.val_cast] at same
  omega

end Brf
