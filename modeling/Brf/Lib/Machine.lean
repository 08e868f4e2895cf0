import Mathlib.Data.Fin.Basic
import Mathlib.Data.List.Basic
import Mathlib.Order.Basic
import Mathlib.Tactic.NormNum

/-!
# Machine integers and their little- and big-endian bytes

Fixed-width integers as a C++ program has them, and the byte strings that spell them.

* `Word w` is an unsigned integer of `w` bits: `Fin (2 ^ w)`, so `+` wraps around.
* `I64` is a signed 64-bit integer, carrying its bounds; `I64.wrap` is the two's complement
  reading of an out-of-range result.
* `Enumeration` numbers the members of a closed enumeration in declaration order.
* `leBytes n v` / `leValue` write and read `n` little-endian bytes; `beBytes n v` / `beValue` are
  the big-endian order.

Results:
* `leValue_leBytes`, `leBytes_leValue`: reading what was written gives the value modulo
  `256 ^ n`, and writing what was read gives the bytes back.
* `I64.ofWord_toWord`, `I64.toWord_ofWord`: the cast between `int64_t` and `uint64_t` is a
  bijection.
-/

namespace Brf.Lib

/-- An unsigned machine integer of `w` bits. -/
abbrev Word (w : Nat) := Fin (2 ^ w)

instance Word.neZero8 : NeZero (2 ^ 8) := ⟨by decide⟩
instance Word.neZero32 : NeZero (2 ^ 32) := ⟨by decide⟩
instance Word.neZero64 : NeZero (2 ^ 64) := ⟨by decide⟩

/-- One octet. -/
abbrev Byte := Word 8

/-- `static_cast` of an unsigned value to `w` bits. -/
def Word.cast (w : Nat) (v : Nat) : Word w := ⟨v % 2 ^ w, Nat.mod_lt _ (Nat.two_pow_pos w)⟩

theorem Word.val_cast (w v : Nat) : (Word.cast w v).val = v % 2 ^ w := rfl

theorem Word.cast_val {w : Nat} (v : Word w) : Word.cast w v.val = v := by
  apply Fin.ext
  exact Nat.mod_eq_of_lt v.isLt

/-! ## Byte strings -/

/-- The `n` little-endian bytes of `v`; higher bytes are dropped, as a cast drops them. -/
def leBytes : Nat → Nat → List Byte
  | 0, _ => []
  | n + 1, v => Word.cast 8 v :: leBytes n (v / 256)

/-- The value a little-endian byte string spells. -/
def leValue : List Byte → Nat
  | [] => 0
  | b :: bs => b.val + 256 * leValue bs

@[simp] theorem leBytes_length : ∀ (n v : Nat), (leBytes n v).length = n
  | 0, _ => rfl
  | n + 1, v => by simp [leBytes, leBytes_length n]

theorem leValue_leBytes : ∀ (n v : Nat), leValue (leBytes n v) = v % 256 ^ n
  | 0, v => by simp [leBytes, leValue, Nat.mod_one]
  | n + 1, v => by
    have ih := leValue_leBytes n (v / 256)
    have split : v % 256 ^ (n + 1) = v % 256 + 256 * (v / 256 % 256 ^ n) := by
      rw [pow_succ, Nat.mul_comm, Nat.mod_mul]
    simp only [leBytes, leValue, ih, Word.val_cast, split]
    norm_num

theorem leBytes_leValue : ∀ (bs : List Byte), leBytes bs.length (leValue bs) = bs
  | [] => rfl
  | b :: bs => by
    have hb : b.val < 256 := b.isLt
    have low : Word.cast 8 (b.val + 256 * leValue bs) = b := by
      apply Fin.ext
      simp only [Word.val_cast]
      omega
    have high : (b.val + 256 * leValue bs) / 256 = leValue bs := by omega
    simp only [List.length_cons, leBytes, leValue, low, high, leBytes_leValue bs]

theorem leValue_lt : ∀ (bs : List Byte), leValue bs < 256 ^ bs.length
  | [] => by simp [leValue]
  | b :: bs => by
    have hb : b.val < 256 := b.isLt
    have ih := leValue_lt bs
    simp only [leValue, List.length_cons, pow_succ]
    omega

/-- The `n` big-endian bytes of `v`. -/
def beBytes (n v : Nat) : List Byte := (leBytes n v).reverse

/-- The value a big-endian byte string spells. -/
def beValue (bs : List Byte) : Nat := leValue bs.reverse

@[simp] theorem beBytes_length (n v : Nat) : (beBytes n v).length = n := by
  simp [beBytes]

theorem beValue_beBytes (n v : Nat) : beValue (beBytes n v) = v % 256 ^ n := by
  simp [beValue, beBytes, leValue_leBytes]

theorem beBytes_beValue (bs : List Byte) : beBytes bs.length (beValue bs) = bs := by
  have h := leBytes_leValue bs.reverse
  rw [List.length_reverse] at h
  simp [beBytes, beValue, h]

theorem beValue_lt (bs : List Byte) : beValue bs < 256 ^ bs.length := by
  simpa [beValue] using leValue_lt bs.reverse

/-! ## Signed 64-bit integers -/

/-- `int64_t`: an integer between `-2^63` and `2^63 - 1`. -/
@[ext] structure I64 where
  val : Int
  lo : -9223372036854775808 ≤ val
  hi : val ≤ 9223372036854775807
  deriving DecidableEq, Repr

namespace I64

/-- The two's complement reading of an integer: what `int64_t` arithmetic leaves in the register. -/
def wrap (v : Int) : I64 :=
  ⟨(v + 9223372036854775808) % 18446744073709551616 - 9223372036854775808, by omega, by omega⟩

theorem val_wrap_of_range {v : Int} (lo : -9223372036854775808 ≤ v)
    (hi : v ≤ 9223372036854775807) : (wrap v).val = v := by
  simp only [wrap]
  omega

theorem wrap_val (a : I64) : wrap a.val = a :=
  I64.ext (val_wrap_of_range a.lo a.hi)

theorem val_injective : Function.Injective I64.val := fun _ _ h => I64.ext h

instance (n : Nat) : OfNat I64 n := ⟨wrap n⟩

instance : Inhabited I64 := ⟨0⟩

@[simp] theorem val_zero : (0 : I64).val = 0 := rfl

instance : LinearOrder I64 := LinearOrder.lift' I64.val val_injective

theorem le_def (a b : I64) : a ≤ b ↔ a.val ≤ b.val := Iff.rfl

theorem lt_def (a b : I64) : a < b ↔ a.val < b.val := Iff.rfl

/-- `static_cast<std::uint64_t>`. -/
def toWord (a : I64) : Word 64 :=
  ⟨(a.val % 18446744073709551616).toNat, by omega⟩

/-- `static_cast<std::int64_t>`. -/
def ofWord (v : Word 64) : I64 := wrap (v.val : Int)

theorem ofWord_toWord (a : I64) : ofWord (toWord a) = a := by
  apply I64.ext
  have lo := a.lo
  have hi := a.hi
  simp only [ofWord, toWord, wrap]
  omega

theorem toWord_ofWord (v : Word 64) : toWord (ofWord v) = v := by
  apply Fin.ext
  have hv := v.isLt
  simp only [ofWord, toWord, wrap]
  omega

end I64

/-! ## Enumerations -/

/-- A closed enumeration whose members are numbered from 0 in the order of `all`. -/
class Enumeration (α : Type) [DecidableEq α] where
  all : List α
  complete : ∀ x : α, x ∈ all

namespace Enumeration

variable {α : Type} [DecidableEq α] [Enumeration α]

/-- `static_cast<unsigned>` of a member. -/
def index (x : α) : Nat := (all (α := α)).idxOf x

/-- The member with a number, if there is one. -/
def ofIndex? (n : Nat) : Option α := (all (α := α))[n]?

theorem index_lt (x : α) : index x < (all (α := α)).length :=
  List.idxOf_lt_length_iff.mpr (complete x)

theorem ofIndex?_index (x : α) : ofIndex? (index x) = some x := by
  unfold ofIndex?
  rw [List.getElem?_eq_getElem (index_lt x)]
  exact congrArg some (List.getElem_idxOf (index_lt x))

end Enumeration

end Brf.Lib
