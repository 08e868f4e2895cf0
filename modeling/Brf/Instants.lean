import Brf.Lib.Decimal
import Brf.Lib.Signed
import Brf.Spelling

/-!
# Reading instants

Model of `parse_timestamp` and of the functions it calls in `src/time.cpp`. Every signed operation is
looked at: the range check of the source comes after a multiplication.

* Loops over positions of the text are recursions over what is left of it.
* Unsigned operations stay within their type, because months and days are checked before them.

Out of scope: what the program does after a signed overflow.
-/

namespace Brf

open Brf.Lib

/-- `(y >= 0 ? y : y - 399) / 400`. -/
def eraOf (y : Int) : Checked Error Int :=
  if 0 ≤ y then pure (y.tdiv 400) else (fun floor => floor.tdiv 400) <$> signed 64 (y - 399)

/-- `days_from_civil`. -/
def daysFromCivil (y : Int) (m d : Nat) : Checked Error Int := do
  let y ← signed 64 (y - (if m ≤ 2 then 1 else 0))
  let era ← eraOf y
  let start ← signed 64 (era * 400)
  let yoe ← signed 64 (y - start)
  let yoe := yoe.toNat
  let monthShift := if 2 < m then m - 3 else m + 9
  let doy := (153 * monthShift + 2) / 5 + d - 1
  let doe := yoe * 365 + yoe / 4 - yoe / 100 + doy
  let days ← signed 64 (era * 146097)
  let days ← signed 64 (days + doe)
  signed 64 (days - 719468)

/-- `is_leap`. -/
def isLeap (year : Int) : Bool :=
  (year.tmod 4 = 0 && year.tmod 100 != 0) || year.tmod 400 = 0

/-- `kMonthDays`. -/
def monthDays : List Nat := [31, 28, 31, 30, 31, 30, 31, 31, 30, 31, 30, 31]

/-- `days_in_month`. -/
def daysInMonth (year : Int) (month : Nat) : Nat :=
  if month < 1 || 12 < month then 0
  else if month = 2 && isLeap year then 29
  else monthDays.getD (month - 1) 0

/-- The loop of `parse_fixed_digits`. -/
def parseDigits : Int → Text → Checked Error (Option Int)
  | value, [] => pure (some value)
  | value, ch :: rest =>
    if ch.val < 48 || 57 < ch.val then pure none
    else do
      let scaled ← signed 32 (value * 10)
      let next ← signed 32 (scaled + (ch.val - 48))
      parseDigits next rest

/-- `parse_fixed_digits`. -/
def parseFixedDigits (text : Text) (offset count : Nat) : Checked Error (Option Int) :=
  if text.length < offset + count then pure none
  else parseDigits 0 ((text.drop offset).take count)

/-- A field of `parse_timestamp`: `||` looks at no field behind the first that is not one. -/
def field (text : Text) (offset count : Nat) : Checked Error Int := do
  match ← parseFixedDigits text offset count with
  | some value => pure value
  | none => Checked.lift (.error (makeError .invalidArgument "timestamp contains a non-digit field"))

/-- The loop over the fraction: its value, the number of its digits, and what is left. -/
def parseFraction : Int → Nat → Text → Checked Error (Int × Nat × Text)
  | nanos, digits, [] => pure (nanos, digits, [])
  | nanos, digits, ch :: rest =>
    if 48 ≤ ch.val && ch.val ≤ 57 then do
      Checked.lift <| refuse (9 ≤ digits) .invalidArgument
        "timestamp has more than nine fractional digits"
      let scaled ← signed 64 (nanos * 10)
      let next ← signed 64 (scaled + (ch.val - 48))
      parseFraction next (digits + 1) rest
    else pure (nanos, digits, ch :: rest)

/-- The loop that scales a fraction to nanoseconds. -/
def scaleFraction : Nat → Int → Checked Error Int
  | 0, nanos => pure nanos
  | n + 1, nanos => do
    let nanos ← signed 64 (nanos * 10)
    scaleFraction n nanos

/-- The optional fraction: nanoseconds, and what is left of the text. -/
def parseNanos (text : Text) : Checked Error (Int × Text) := do
  match text with
  | [] => pure (0, [])
  | ch :: rest =>
    if ch = Word.cast 8 46 then do
      let (nanos, digits, rest) ← parseFraction 0 0 rest
      Checked.lift <| refuse (digits = 0) .invalidArgument "timestamp fraction has no digits"
      let nanos ← scaleFraction (9 - digits) nanos
      pure (nanos, rest)
    else pure (0, ch :: rest)

/-- The instant of a date and a time of day that exist. -/
def instantOf (year month day hour minute second nanos : Int) : Checked Error Timestamp := do
  let days ← daysFromCivil year month.toNat day.toNat
  let days ← signed 64 (days * 86400)
  let hours ← signed 32 (hour * 3600)
  let seconds ← signed 64 (days + hours)
  let minutes ← signed 32 (minute * 60)
  let seconds ← signed 64 (seconds + minutes)
  let seconds ← signed 64 (seconds + second)
  Checked.lift <| refuse (seconds < 0) .invalidArgument "timestamp precedes the Unix epoch"
  let total ← signed 64 (seconds * nsPerSecond)
  let total ← signed 64 (total + nanos)
  Checked.lift <| refuse (maxTimestampNs < total) .overflow "timestamp exceeds the supported domain"
  pure (I64.wrap total)

/-- `parse_timestamp`. -/
def parseTimestamp (text : Text) : Checked Error Timestamp := do
  Checked.lift <| refuse (text.length < 20) .invalidArgument
    "timestamp is too short for the canonical form"
  Checked.lift <| refuse
    (text.getD 4 0 != Word.cast 8 45 || text.getD 7 0 != Word.cast 8 45 ||
      text.getD 10 0 != Word.cast 8 84 || text.getD 13 0 != Word.cast 8 58 ||
      text.getD 16 0 != Word.cast 8 58) .invalidArgument
    "timestamp does not match YYYY-MM-DDTHH:MM:SS(.f)Z"
  let year ← field text 0 4
  let month ← field text 5 2
  let day ← field text 8 2
  let hour ← field text 11 2
  let minute ← field text 14 2
  let second ← field text 17 2
  let (nanos, rest) ← parseNanos (text.drop 19)
  Checked.lift <| refuse (rest != ascii "Z") .invalidArgument
    "timestamp must end with 'Z' (UTC) and no offset"
  Checked.lift <| refuse (month < 1 || 12 < month) .invalidArgument
    "timestamp month is out of range"
  Checked.lift <| refuse (day < 1 || daysInMonth year month.toNat < day.toNat) .invalidArgument
    "timestamp day is out of range"
  Checked.lift <| refuse (23 < hour || 59 < minute || 59 < second) .invalidArgument
    "timestamp time-of-day is out of range"
  instantOf year month day hour minute second nanos

end Brf
