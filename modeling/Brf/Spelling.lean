import Brf.Reservation

/-!
# Spellings

Model of the texts that explanations, reasons and fingerprints are built from: `to_decimal`,
`to_hex` and `format_identity` (`src/identity.cpp`), `format_timestamp` (`src/time.cpp`),
`format_bandwidth` (`src/bandwidth.cpp`), and the `to_string` functions of guarantee classes, states
and outcomes that a modelled function calls.

* A text is a list of bytes; `+` and `+=` on strings are `++`.

Out of scope: the parsers; that of instants is in `Brf.Instants`.
-/

namespace Brf

open Brf.Lib

/-- `to_decimal`. -/
def toDecimal (n : Nat) : Text := (Nat.toDigits 10 n).map fun c => Word.cast 8 c.toNat

/-- `%0{width}lld`. -/
def padded (width n : Nat) : Text :=
  List.replicate (width - (toDecimal n).length) (Word.cast 8 48) ++ toDecimal n

/-- `kHexDigits`. -/
def hexDigit (n : Nat) : Byte := Word.cast 8 (if n < 10 then 48 + n else 87 + n)

/-- `Identity128::to_hex`. -/
def Identity128.toHex (id : Identity128) : Text :=
  id.bytes.flatMap fun b => [hexDigit (b.val / 16), hexDigit (b.val % 16)]

/-- `format_identity`. -/
def formatIdentity (id : Identity128) : Text :=
  let hex := id.toHex
  hex.take 8 ++ ascii "-" ++ (hex.drop 8).take 4 ++ ascii "-" ++ (hex.drop 12).take 4 ++ ascii "-" ++
    (hex.drop 16).take 4 ++ ascii "-" ++ (hex.drop 20).take 12

/-! ## Instants -/

/-- `CivilDate`. -/
structure CivilDate where
  year : Int := 1970
  month : Nat := 1
  day : Nat := 1
  deriving DecidableEq, Repr

/-- `civil_from_days` for days from the epoch on. -/
def civilFromDays (days : Nat) : CivilDate :=
  let z := days + 719468
  let era := z / 146097
  let doe := z - era * 146097
  let yoe := (doe - doe / 1460 + doe / 36524 - doe / 146096) / 365
  let y := yoe + era * 400
  let doy := doe - (365 * yoe + yoe / 4 - yoe / 100)
  let mp := (5 * doy + 2) / 153
  let day := doy - (153 * mp + 2) / 5 + 1
  let month := if mp < 10 then mp + 3 else mp - 9
  { year := y + (if month ≤ 2 then 1 else 0), month, day }

/-- `format_timestamp`. -/
def formatTimestamp (t : Timestamp) : Text :=
  if t.val < 0 then ascii "<invalid>"
  else
    let ns := t.val.toNat
    let seconds := ns / 1000000000
    let date := civilFromDays (seconds / 86400)
    let secondOfDay := seconds % 86400
    padded 4 date.year.toNat ++ ascii "-" ++ padded 2 date.month ++ ascii "-" ++ padded 2 date.day ++
      ascii "T" ++ padded 2 (secondOfDay / 3600) ++ ascii ":" ++
      padded 2 (secondOfDay % 3600 / 60) ++ ascii ":" ++ padded 2 (secondOfDay % 60) ++ ascii "." ++
      padded 9 (ns % 1000000000) ++ ascii "Z"

/-- `detail::window_text`. -/
def windowText (window : Interval) : Text :=
  ascii "[" ++ formatTimestamp window.start ++ ascii "," ++ formatTimestamp window.stop ++ ascii ")"

/-! ## Bandwidth -/

/-- `kScales`, widest first. -/
def scales : List (Nat × Text) :=
  [(1000000000000, ascii "Tbit/s"), (1000000000, ascii "Gbit/s"), (1000000, ascii "Mbit/s"),
    (1000, ascii "kbit/s")]

/-- `format_bandwidth`. -/
def formatBandwidth (b : Bandwidth) : Text :=
  if b.val < 0 then ascii "<invalid>"
  else
    let bps := b.val.toNat
    match scales.find? fun scale => scale.1 ≤ bps with
    | some (factor, label) =>
      toDecimal (bps / factor) ++ ascii "." ++ padded 3 (bps % factor * 1000 / factor) ++ ascii " " ++
        label
    | none => toDecimal bps ++ ascii " bit/s"

/-! ## Enumerations -/

/-- `to_string(GuaranteeClass)`. -/
def GuaranteeClass.spelling : GuaranteeClass → Text
  | .scavenger => ascii "SCAVENGER"
  | .preemptible => ascii "PREEMPTIBLE"
  | .«protected» => ascii "PROTECTED"
  | .guaranteed => ascii "GUARANTEED"

/-- `to_string(ReservationState)`. -/
def ReservationState.spelling : ReservationState → Text
  | .declared => ascii "DECLARED"
  | .validated => ascii "VALIDATED"
  | .pending => ascii "PENDING"
  | .committed => ascii "COMMITTED"
  | .active => ascii "ACTIVE"
  | .amendmentPending => ascii "AMENDMENT_PENDING"
  | .recallPending => ascii "RECALL_PENDING"
  | .released => ascii "RELEASED"
  | .expired => ascii "EXPIRED"
  | .revoked => ascii "REVOKED"
  | .fenced => ascii "FENCED"
  | .stale => ascii "STALE"
  | .superseded => ascii "SUPERSEDED"
  | .rejected => ascii "REJECTED"
  | .retired => ascii "RETIRED"

example : formatTimestamp (I64.wrap 1700000000123456789) = ascii "2023-11-14T22:13:20.123456789Z" := by
  decide +kernel

example : formatBandwidth (I64.wrap 2500000000) = ascii "2.500 Gbit/s" := by decide +kernel

end Brf
