import Mathlib.Data.Nat.Bitwise
import Brf.Lib.Machine

/-!
# Checksums from a table

A checksum of 32 bits that absorbs one byte a turn: the byte goes into the lowest byte of the state,
the state moves down by one byte, and the entry of a table is added to it.

* `Steep table`: an entry can be told from its highest byte. The tables of the cyclic redundancy codes
  whose polynomial has its highest coefficient are steep.
* A turn loses nothing: of the state that a turn leaves, the highest byte tells which entry was added.
  So if two states agree above their lowest `k` bytes, the states before the turn agree above their
  lowest `k + 1` bytes, and have absorbed bytes into the same lowest byte (`absorb_back`).

Results: `absorbs_injective` (different states stay different), `burst_detected` (two strings that
differ in at most four adjacent bytes have different checksums) and `absorbs_sealed`: a string that ends
with its checksum leaves a state that does not depend on it.
-/

namespace Brf.Lib

namespace Checksum

/-- One turn. -/
def absorb (table : Nat → Nat) (state : Nat) (byte : Nat) : Nat :=
  table ((state ^^^ byte) % 256) ^^^ (state / 256)

/-- The turns of a string of bytes. -/
def absorbs (table : Nat → Nat) (state : Nat) (bytes : List Byte) : Nat :=
  bytes.foldl (fun state byte => absorb table state byte.val) state

/-- The entries of a table, by their highest bytes. -/
structure Steep (table : Nat → Nat) : Prop where
  small : ∀ i, i < 256 → table i < 2 ^ 32
  steep : ∀ i j, i < 256 → j < 256 → table i / 2 ^ 24 = table j / 2 ^ 24 → i = j

variable {table : Nat → Nat}

theorem absorbs_cons (state : Nat) (byte : Byte) (bytes : List Byte) :
    absorbs table state (byte :: bytes) = absorbs table (absorb table state byte.val) bytes := rfl

theorem absorbs_append (state : Nat) (front back : List Byte) :
    absorbs table state (front ++ back) = absorbs table (absorbs table state front) back :=
  List.foldl_append

/-! ## Bytes of a state -/

theorem xor_div (a b k : Nat) : (a ^^^ b) / 2 ^ k = a / 2 ^ k ^^^ b / 2 ^ k := by
  rw [← Nat.shiftRight_eq_div_pow, ← Nat.shiftRight_eq_div_pow, ← Nat.shiftRight_eq_div_pow]
  exact Nat.shiftRight_xor_distrib

theorem xor_cancel_left {s a b : Nat} (h : s ^^^ a = s ^^^ b) : a = b := by
  have both := congrArg (s ^^^ ·) h
  simpa only [← Nat.xor_assoc, Nat.xor_self, Nat.zero_xor] using both

/-- A byte changes the lowest byte of a state only. -/
theorem xor_byte_div (s : Nat) {b : Nat} (small : b < 256) : (s ^^^ b) / 256 = s / 256 := by
  have split := xor_div s b 8
  rwa [show (2 : Nat) ^ 8 = 256 from rfl, Nat.div_eq_of_lt small, Nat.xor_zero] at split

/-- Equal bytes in equal lowest bytes. -/
theorem byte_eq {s b d : Nat} (hb : b < 256) (hd : d < 256)
    (same : (s ^^^ b) % 256 = (s ^^^ d) % 256) : b = d := by
  refine xor_cancel_left (s := s) ?_
  have high := (xor_byte_div s hb).trans (xor_byte_div s hd).symm
  omega

theorem absorb_lt (steep : Steep table) {s : Nat} (hs : s < 2 ^ 32) (b : Nat) :
    absorb table s b < 2 ^ 32 :=
  Nat.xor_lt_two_pow (steep.small _ (Nat.mod_lt _ (by decide))) (by omega)

theorem absorbs_lt (steep : Steep table) : ∀ (bytes : List Byte) {s : Nat}, s < 2 ^ 32 →
    absorbs table s bytes < 2 ^ 32
  | [], _, hs => hs
  | b :: bytes, s, hs => by
    rw [absorbs_cons]
    exact absorbs_lt steep bytes (absorb_lt steep hs b.val)

/-! ## Turns back -/

/-- **One turn back**: what agrees above the lowest `k` bytes after a turn agreed above one byte more
before it, and the turns have added the same entry. -/
theorem absorb_back (steep : Steep table) {s t b d k : Nat} (hs : s < 2 ^ 32) (ht : t < 2 ^ 32)
    (few : k ≤ 3) (same : absorb table s b / 2 ^ (8 * k) = absorb table t d / 2 ^ (8 * k)) :
    (s ^^^ b) % 256 = (t ^^^ d) % 256 ∧ s / 2 ^ (8 * k + 8) = t / 2 ^ (8 * k + 8) := by
  unfold absorb at same
  have lowest : ∀ x, x % 256 < 256 := fun x => Nat.mod_lt x (by decide)
  have high : table ((s ^^^ b) % 256) / 2 ^ 24 = table ((t ^^^ d) % 256) / 2 ^ 24 := by
    have top := congrArg (· / 2 ^ (24 - 8 * k)) same
    simp only [Nat.div_div_eq_div_mul, ← pow_add, show 8 * k + (24 - 8 * k) = 24 by omega] at top
    rw [xor_div, xor_div, Nat.div_eq_of_lt (by omega : s / 256 < 2 ^ 24),
      Nat.div_eq_of_lt (by omega : t / 256 < 2 ^ 24), Nat.xor_zero, Nat.xor_zero] at top
    exact top
  have entry := steep.steep _ _ (lowest _) (lowest _) high
  refine ⟨entry, ?_⟩
  rw [entry, xor_div, xor_div] at same
  have rest := xor_cancel_left same
  rw [Nat.div_div_eq_div_mul, Nat.div_div_eq_div_mul] at rest
  rw [Nat.add_comm, pow_add]
  exact rest

theorem absorb_injective (steep : Steep table) {s t b : Nat} (hs : s < 2 ^ 32) (ht : t < 2 ^ 32)
    (small : b < 256) (same : absorb table s b = absorb table t b) : s = t := by
  obtain ⟨low, high⟩ := absorb_back (k := 0) steep hs ht (by omega) (congrArg (· / 2 ^ (8 * 0)) same)
  have split := (xor_byte_div s small).trans (Eq.trans high (xor_byte_div t small).symm)
  refine xor_cancel_left (s := b) ?_
  rw [Nat.xor_comm b s, Nat.xor_comm b t]
  omega

/-- **Different states stay different.** -/
theorem absorbs_injective (steep : Steep table) : ∀ (bytes : List Byte) {s t : Nat}, s < 2 ^ 32 →
    t < 2 ^ 32 → absorbs table s bytes = absorbs table t bytes → s = t
  | [], _, _, _, _, same => same
  | b :: bytes, s, t, hs, ht, same => by
    rw [absorbs_cons, absorbs_cons] at same
    exact absorb_injective steep hs ht b.isLt
      (absorbs_injective steep bytes (absorb_lt steep hs _) (absorb_lt steep ht _) same)

/-- **Turns back**: what agrees above the lowest `k` bytes after `n` turns agreed above `k + n` bytes
before them, and from one state only one string leads there. -/
theorem absorbs_back (steep : Steep table) : ∀ {as bs : List Byte} {s t k : Nat}, s < 2 ^ 32 →
    t < 2 ^ 32 → as.length = bs.length → k + as.length ≤ 4 →
    absorbs table s as / 2 ^ (8 * k) = absorbs table t bs / 2 ^ (8 * k) →
    s / 2 ^ (8 * (k + as.length)) = t / 2 ^ (8 * (k + as.length)) ∧
      (absorbs table s as = absorbs table t bs → s = t → as = bs)
  | [], [], _, _, _, _, _, _, _, same => ⟨same, fun _ _ => rfl⟩
  | a :: as, b :: bs, s, t, k, hs, ht, long, few, same => by
    simp only [List.length_cons] at long few ⊢
    rw [absorbs_cons, absorbs_cons] at same
    obtain ⟨before, rest⟩ := absorbs_back steep (absorb_lt steep hs _) (absorb_lt steep ht _)
      (Nat.succ.inj long) (by omega) same
    obtain ⟨low, high⟩ := absorb_back steep hs ht (by omega) before
    rw [show 8 * (k + (as.length + 1)) = 8 * (k + as.length) + 8 by omega]
    refine ⟨high, ?_⟩
    rintro whole rfl
    obtain rfl : a = b := Fin.ext (byte_eq a.isLt b.isLt low)
    rw [absorbs_cons, absorbs_cons] at whole
    rw [rest whole rfl]

/-- **Bursts are detected**: strings that differ in at most four adjacent bytes have different
checksums. -/
theorem burst_detected (steep : Steep table) {s : Nat} (hs : s < 2 ^ 32)
    {front as bs back : List Byte} (long : as.length = bs.length) (few : as.length ≤ 4)
    (differ : as ≠ bs) :
    absorbs table s (front ++ as ++ back) ≠ absorbs table s (front ++ bs ++ back) := by
  intro same
  simp only [absorbs_append] at same
  have start := absorbs_lt steep front hs
  have inside := absorbs_injective steep back (absorbs_lt steep as start)
    (absorbs_lt steep bs start) same
  exact differ ((absorbs_back (k := 0) steep start start long (by omega)
    (congrArg (· / 2 ^ (8 * 0)) inside)).2 inside rfl)

/-! ## A string with its own checksum -/

/-- A turn on the bytes of the state itself: what is left does not depend on them. -/
theorem absorb_own (c s m : Nat) : absorb table (c ^^^ s) ((s ^^^ m) % 256) =
    absorb table c (m % 256) ^^^ (s / 256) := by
  have own : ((c ^^^ s) ^^^ ((s ^^^ m) % 256)) % 256 = (c ^^^ (m % 256)) % 256 := by
    have bits : ∀ x y : Nat, (x ^^^ y) % 256 = x % 256 ^^^ y % 256 := fun x y =>
      Nat.xor_mod_two_pow (n := 8)
    rw [bits, bits c s, bits c, Nat.mod_mod, Nat.mod_mod, bits s m, ← Nat.xor_assoc,
      Nat.xor_assoc (c % 256), Nat.xor_self, Nat.xor_zero]
  unfold absorb
  rw [own, show (256 : Nat) = 2 ^ 8 from rfl, xor_div, Nat.xor_assoc]

theorem absorbs_own : ∀ (n c s m : Nat), absorbs table (c ^^^ s) (leBytes n (s ^^^ m)) =
    absorbs table c (leBytes n m) ^^^ (s / 256 ^ n)
  | 0, c, s, m => by simp [absorbs, leBytes]
  | n + 1, c, s, m => by
    have byte : ∀ v : Nat, (Word.cast 8 v).val = v % 256 := fun v => Word.val_cast (w := 8) v
    have later : (s ^^^ m) / 256 = s / 256 ^^^ m / 256 := xor_div s m 8
    simp only [leBytes, absorbs_cons, byte, absorb_own, later]
    rw [absorbs_own n, Nat.div_div_eq_div_mul, pow_succ, Nat.mul_comm]

/-- **The residue**: a string and its checksum, together, always leave the same state. -/
theorem absorbs_sealed {s : Nat} (hs : s < 2 ^ 32) (m : Nat) :
    absorbs table s (leBytes 4 (s ^^^ m)) = absorbs table 0 (leBytes 4 m) := by
  have whole := @absorbs_own table 4 0 s m
  rwa [Nat.zero_xor, Nat.div_eq_of_lt (by omega : s < 256 ^ 4), Nat.xor_zero] at whole

end Checksum

end Brf.Lib
