import StarStats.Core.Transactions
import StarStats.Lib.Checked

/-!
# The clock with overflow checks (`starstats-core/src/transactions.rs` `parse_iso_secs`)

`parseIsoSecs` and `daysFromCivil` wrap as a release build does. A build with overflow checks panics
instead, which is `none` here. The six numbers of a text are read before anything is calculated.
-/

namespace StarStats

open Checked

/-- The numbers of `YYYY-MM-DDTHH:MM:SS`, as they are written. -/
structure IsoComponents where
  year : Nat
  month : Nat
  day : Nat
  hour : Nat
  minute : Nat
  second : Nat
  deriving DecidableEq

/-- The number that `parseI64` reads. -/
def parseDecimal (digits : List Char) : Option Nat :=
  let value := Text.decimalValue digits
  if digits ≠ [] ∧ digits.all Char.isDigit ∧ value < 2 ^ 63 then some value else none

/-- The parts of a text, without a fraction and an offset. -/
def isoParts (s : String) : List (List Char) :=
  let normalised := s.toList.map fun c => if c = 'T' then ' ' else c
  let primary := ((normalised.takeWhile (· ≠ '.')).takeWhile (· ≠ '+')).takeWhile (· ≠ 'Z')
  Text.fields (fun c => c == ' ' || c == '-' || c == ':')
    (Text.trim (String.ofList primary)).toList

def IsoComponents.ofParts : List (Option Nat) → Option IsoComponents
  | some y :: some mo :: some d :: some h :: some mi :: some se :: _ => some ⟨y, mo, d, h, mi, se⟩
  | _ => none

def isoComponents (s : String) : Option IsoComponents :=
  if s.isEmpty then none else IsoComponents.ofParts ((isoParts s).map parseDecimal)

def daysFromCivilChecked (y m d : Int) : Option Int := do
  let y ← (if m ≤ 2 then i64 (y - 1) else some y)
  let eraBase ← (if 0 ≤ y then some y else i64 (y - 399))
  let era := eraBase.tdiv 400
  let eraYears ← i64 (era * 400)
  let yoe ← i64 (y - eraYears)
  let yoe := asU64 yoe
  let mU := asU64 m
  let dU := asU64 d
  let shifted ← (if 2 < mU then u64 (mU - 3) else u64 (mU + 9))
  let scaled ← u64 (153 * shifted)
  let scaled ← u64 (scaled + 2)
  let doy ← u64 (scaled / 5 + dU)
  let doy ← u64 (doy - 1)
  let yoeDays ← u64 (yoe * 365)
  let yoeDays ← u64 (yoeDays + yoe / 4)
  let yoeDays ← u64 (yoeDays - yoe / 100)
  let doe ← u64 (yoeDays + doy)
  let eraDays ← i64 (era * 146097)
  let days ← i64 (eraDays + asI64 doe)
  i64 (days - 719468)

def IsoComponents.secsChecked (c : IsoComponents) : Option Int := do
  let days ← daysFromCivilChecked c.year c.month c.day
  let secs ← i64 (days * 86400)
  let hours ← i64 (c.hour * 3600)
  let secs ← i64 (secs + hours)
  let minutes ← i64 (c.minute * 60)
  let secs ← i64 (secs + minutes)
  i64 (secs + c.second)

/-- `parse_iso_secs`, or `none` on an overflow. -/
def parseIsoSecsChecked (s : String) : Option (Option Int) :=
  match isoComponents s with
  | some c => c.secsChecked.map some
  | none => some none

end StarStats
