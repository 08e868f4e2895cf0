import Brf.Error
import Brf.Lib.OrderedMap
import Mathlib.Data.List.Lex
import Mathlib.Data.Prod.Lex
import Mathlib.Order.Fin.Basic

/-!
# Identities, generations and names

Model of `include/brf/identity.hpp`, `src/identity.cpp` and the fingerprint of `src/hash.cpp`.

* `Identity128` is 16 opaque bytes ordered byte-lexicographically, that is the big-endian number
  they spell; the nil identity is 0.
* `Counter` is the value of every strong counter type (`ReservationGeneration`, `FabricEpoch`, …):
  64 bits, so `+ 1` wraps around at the ceiling. `Counter.next` is the checked step.
* `FixedName cap` carries the proof that its text passed `from_string`, or is the empty name of a
  default-constructed value.
* `fingerprint128` is the two-lane FNV-1a of the source, bit for bit.

Out of scope: hexadecimal and decimal spellings and `random_identity`; the coordinator's boot
identity is an input of the model.
-/

namespace Brf

open Brf.Lib

/-! ## 128-bit identities -/

/-- `Identity128`. -/
abbrev Identity128 := Word 128

namespace Identity128

instance transOrd : Std.TransCmp (compare : Identity128 → Identity128 → Ordering) := inferInstance

instance neZero : NeZero (2 ^ 128) := ⟨by decide⟩

/-- `Identity128::from_bytes`. -/
def fromBytes (bytes : List Byte) : Identity128 := Word.cast 128 (beValue bytes)

/-- `Identity128::bytes`. -/
def bytes (id : Identity128) : List Byte := beBytes 16 id.val

/-- `Identity128::is_nil`. -/
def isNil (id : Identity128) : Bool := id = 0

@[simp] theorem bytes_length (id : Identity128) : id.bytes.length = 16 := by
  simp [bytes]

theorem fromBytes_bytes (id : Identity128) : fromBytes id.bytes = id := by
  apply Fin.ext
  have h := id.isLt
  simp only [fromBytes, bytes, Word.val_cast, beValue_beBytes]
  omega

theorem bytes_fromBytes {raw : List Byte} (len : raw.length = 16) : (fromBytes raw).bytes = raw := by
  have bound : beValue raw < 2 ^ 128 := by
    have below := beValue_lt raw
    rwa [len] at below
  rw [bytes, fromBytes, Word.val_cast, Nat.mod_eq_of_lt bound, ← len, beBytes_beValue]

end Identity128

/-- `fnv1a_impl` (`hash.cpp`). -/
def fnv1a (seed : Nat) (data : List Byte) : Nat :=
  data.foldl (fun state byte => (state ^^^ byte.val) * 1099511628211 % 18446744073709551616) seed

/-- `fingerprint128` (`hash.cpp`): two FNV-1a lanes, each written big-endian. -/
def fingerprint128 (data : List Byte) : Identity128 :=
  Identity128.fromBytes
    (beBytes 8 (fnv1a 1469598103934665603 data) ++ beBytes 8 (fnv1a 14695981039346656037 data))

/-- `Identity128::derive`. -/
def Identity128.derive (parent : Identity128) (index : Nat) : Identity128 :=
  fingerprint128 (parent.bytes ++ beBytes 8 index)

/-! ## Counters -/

/-- `Counter<Tag>`. -/
abbrev Counter := Word 64

/-- `Counter::next`: the successor, or an error at the ceiling. -/
def Counter.next (c : Counter) : Result Counter :=
  if c.val = 18446744073709551615 then .error (makeError .overflow "counter exhausted")
  else .ok (c + 1)

abbrev ReservationGeneration := Counter
abbrev ClaimantGeneration := Counter
abbrev ResourceGeneration := Counter
abbrev PathAuthorityGeneration := Counter
abbrev CapacitySnapshotGeneration := Counter
abbrev PolicyGeneration := Counter
abbrev FabricEpoch := Counter
abbrev DurableSequence := Counter
abbrev SeriesGeneration := Counter
abbrev SeriesIndex := Counter
abbrev HoldGeneration := Counter
abbrev FailureDomainGeneration := Counter

abbrev ReservationId := Identity128
abbrev ReservationSeriesId := Identity128
abbrev ClaimantId := Identity128
abbrev CapacitySnapshotId := Identity128
abbrev AttemptId := Identity128
abbrev PublisherId := Identity128
abbrev PublisherBootId := Identity128
abbrev SessionId := Identity128
abbrev HoldId := Identity128

/-! ## Names -/

/-- The characters `FixedName::from_string` accepts: letters, digits and `._-:/@+`. -/
def nameCharacter (b : Byte) : Bool :=
  (65 ≤ b.val && b.val ≤ 90) || (97 ≤ b.val && b.val ≤ 122) || (48 ≤ b.val && b.val ≤ 57) ||
    [46, 95, 45, 58, 47, 64, 43].contains b.val

/-- `text.find("..") != npos`. -/
def hasDotDot : Text → Bool
  | a :: b :: rest => (a.val == 46 && b.val == 46) || hasDotDot (b :: rest)
  | _ => false

/-- The checks of `FixedName<Capacity>::from_string`. -/
def checkName (capacity : Nat) (text : Text) : Result Unit := do
  refuse text.isEmpty .invalidName "name must not be empty"
  refuse (capacity < text.length) .invalidName "name exceeds capacity"
  refuse (!text.all nameCharacter) .invalidName "name contains an unsupported character"
  refuse (hasDotDot text) .invalidName "name must not contain '..'"

/-- `FixedName<Capacity>`: a checked text, or the empty text of a default-constructed name. -/
structure FixedName (capacity : Nat) where
  text : Text
  checked : text = [] ∨ checkName capacity text = .ok ()

namespace FixedName

variable {capacity : Nat}

theorem text_injective : Function.Injective (@FixedName.text capacity)
  | ⟨_, _⟩, ⟨_, _⟩, rfl => rfl

@[ext] theorem ext' {a b : FixedName capacity} (h : a.text = b.text) : a = b := text_injective h

instance : LinearOrder (FixedName capacity) := LinearOrder.lift' FixedName.text text_injective

instance : Inhabited (FixedName capacity) := ⟨⟨[], .inl rfl⟩⟩

instance : Repr (FixedName capacity) := ⟨fun n p => reprPrec (n.text.map fun b => b.val) p⟩

/-- `FixedName::from_string`. -/
def fromString (text : Text) : Result (FixedName capacity) :=
  match h : checkName capacity text with
  | .ok () => .ok ⟨text, .inr h⟩
  | .error e => .error e

/-- `FixedName::empty`. -/
def empty (n : FixedName capacity) : Bool := n.text.isEmpty

/-- A name written as a literal; the empty name where the literal is not one. -/
def lit (s : String) : FixedName capacity := (fromString (ascii s)).toOption.getD default

theorem length_le_of_check {text : Text} (h : checkName capacity text = .ok ()) :
    text.length ≤ capacity := by
  simp only [checkName, Result.bind_eq_ok] at h
  obtain ⟨_, _, _, len, _⟩ := h
  simpa using refuse_eq_ok.mp len

theorem length_le (n : FixedName capacity) : n.text.length ≤ capacity := by
  rcases n.checked with h | h
  · simp [h]
  · exact length_le_of_check h

theorem fromString_text {n : FixedName capacity} (h : n.text ≠ []) :
    fromString n.text = .ok n := by
  have hc : checkName capacity n.text = .ok () := n.checked.resolve_left h
  unfold fromString
  split
  · rfl
  · rename_i e he
    rw [hc] at he
    exact absurd he (by simp)

theorem text_of_fromString {raw : Text} {n : FixedName capacity} (h : fromString raw = .ok n) :
    n.text = raw := by
  unfold fromString at h
  split at h
  · exact (Except.ok.inj h) ▸ rfl
  · cases h

end FixedName

abbrev ResourceName := FixedName 64
abbrev PathName := FixedName 64
abbrev PolicyName := FixedName 64
abbrev FailureDomainName := FixedName 64
abbrev ActorName := FixedName 48

instance : LinearOrder ResourceName := FixedName.instLinearOrder

end Brf
