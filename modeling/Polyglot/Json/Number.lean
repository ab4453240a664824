/-! Numbers in JSON text. -/

namespace Polyglot.Json

/-- An integer of at most 64 bits, or a double. -/
inductive Number where
  | int (value : Int)
  | float (value : Float)

/-- A number as it is written, digit by digit. -/
structure NumberText where
  negative : Bool := false
  whole : List Nat := []
  fraction : List Nat := []
  exponent : Option (Bool × List Nat) := none

namespace NumberText

/-- Takes digits into `significand` while it stays within `limit`; the rest is left over. -/
def absorb (limit : Nat) : Nat → List Nat → Nat × List Nat
  | significand, [] => (significand, [])
  | significand, digit :: rest =>
    if significand * 10 + digit ≤ limit then absorb limit (significand * 10 + digit) rest
    else (significand, digit :: rest)

def powerOfTen (exponent : Nat) : Float :=
  Float.ofScientific 1 false exponent

/-- One multiplication or division by a power of ten, two if a single power is out of reach; none
if the result is too large. -/
def scale? (significand : Nat) (exponent : Int) : Option Float :=
  let start := significand.toUInt64.toFloat
  if 308 < exponent then if significand = 0 then some 0 else none
  else if 0 ≤ exponent then
    let result := start * powerOfTen exponent.toNat
    if result.isInf then none else some result
  else if -308 ≤ exponent then some (start / powerOfTen (-exponent).toNat)
  else if -616 ≤ exponent then
    some (start / powerOfTen 308 / powerOfTen (-exponent - 308).toNat)
  else some 0

def float? (number : NumberText) : Option Float :=
  let (whole, dropped) := absorb (Nat.pow 2 64 - 1) 0 number.whole
  let (significand, unused) := absorb (Nat.pow 2 64 - 1) whole number.fraction
  let point : Int := dropped.length - (number.fraction.length - unused.length)
  let magnitude :=
    match number.exponent with
    | none => scale? significand point
    | some (isNegative, digits) =>
      let (power, beyond) := absorb (Nat.pow 2 31 - 1) 0 digits
      if beyond.isEmpty then scale? significand (if isNegative then point - power else point + power)
      else if significand = 0 || isNegative then some 0 else none
  magnitude.map fun x => if number.negative then -x else x

/-- The value, or none if it is out of range. An integer that does not fit, and minus zero, is
read as a double. -/
def read? (number : NumberText) : Option Number :=
  let (whole, dropped) := absorb (Nat.pow 2 64 - 1) 0 number.whole
  if dropped.isEmpty && number.fraction.isEmpty && number.exponent.isNone then
    if !number.negative then some (.int whole)
    else if whole = 0 || Nat.pow 2 63 < whole then number.float?.map .float
    else some (.int (-whole))
  else number.float?.map .float

end NumberText

end Polyglot.Json
