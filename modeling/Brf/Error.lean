import Brf.Lib.Machine
import Brf.Lib.Op

/-!
# Errors and byte strings

Model of `include/brf/error.hpp` and the string literals of the source.

* `Text` is `std::string`: a list of bytes. `ascii` is a string literal.
* `ErrorCode` is the closed taxonomy in declaration order (its number is its durable spelling);
  `Error` is the code and the message that travel in `Result<T>`, which is `Except Error T` here.

Out of scope: `to_string(ErrorCode)` and `is_authority_refusal`, which no modelled function calls.
-/

namespace Brf

open Brf.Lib

/-- `std::string` and `std::string_view`. -/
abbrev Text := List Byte

/-- A string literal. -/
def ascii (s : String) : Text := s.toList.map fun c => Word.cast 8 c.toNat

/-- `ErrorCode` (`error.hpp`). -/
inductive ErrorCode where
  | ok | invalidArgument | invalidInterval | invalidBandwidth | invalidIdentity | invalidName
  | overflow | notFound | alreadyExists | generationMismatch | staleEpoch | staleGeneration
  | fencedClaimant | authorityRequired | policyRejected | insufficientCapacity | capacityOvercommit
  | illegalTransition | idempotentReplay | conflict | corrupt | tornTail | io | unsupported
  | resourceExhausted | cancelled | shuttingDown | internal
  deriving DecidableEq, Repr

instance : Enumeration ErrorCode where
  all := [.ok, .invalidArgument, .invalidInterval, .invalidBandwidth, .invalidIdentity,
    .invalidName, .overflow, .notFound, .alreadyExists, .generationMismatch, .staleEpoch,
    .staleGeneration, .fencedClaimant, .authorityRequired, .policyRejected, .insufficientCapacity,
    .capacityOvercommit, .illegalTransition, .idempotentReplay, .conflict, .corrupt, .tornTail, .io,
    .unsupported, .resourceExhausted, .cancelled, .shuttingDown, .internal]
  complete x := by cases x <;> decide

/-- `Error`: a code callers branch on, and a message. -/
structure Error where
  code : ErrorCode := .ok
  message : Text := []
  deriving DecidableEq, Repr

/-- `make_error`. -/
def makeError (code : ErrorCode) (message : String) : Error := ⟨code, ascii message⟩

/-- `Result<T>`. -/
abbrev Result (α : Type) := Except Error α

/-- The guard `if (c) return make_error(code, message);` of a function that changes nothing. -/
def refuse (c : Bool) (code : ErrorCode) (message : String) : Result Unit :=
  if c then .error (makeError code message) else .ok ()

/-- A chain of checks passes only if each of them does. -/
theorem Result.bind_eq_ok {α β : Type} {x : Result α} {f : α → Result β} {b : β} :
    x >>= f = .ok b ↔ ∃ a, x = .ok a ∧ f a = .ok b := by
  cases x <;> simp [bind, Except.bind]

/-- A check in front of the rest. -/
theorem check_bind_eq_ok {α : Type} {m : Result Unit} {f : Unit → Result α} {a : α} :
    m >>= f = .ok a ↔ m = .ok () ∧ f () = .ok a := by
  rcases m with e | ⟨⟩ <;> simp [bind, Except.bind]

@[simp] theorem refuse_eq_ok {c : Bool} {code : ErrorCode} {message : String} :
    refuse c code message = .ok () ↔ c = false := by
  cases c <;> simp [refuse]

end Brf
