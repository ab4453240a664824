/-! The decimals of a binary fraction: the shortest one that reads back, and rounded ones. -/

namespace Polyglot.Decimal

/-- The number `digits * 10 ^ exponent`. -/
structure Scaled where
  digits : Nat
  exponent : Int
  deriving DecidableEq, Inhabited

/-- A positive rational with the bounds of the interval that rounds to it, over one denominator. -/
structure Interval where
  low : Nat
  value : Nat
  high : Nat
  denominator : Nat
  inclusive : Bool

/-- The interval of `mantissa * 2 ^ power`. Below a power of two the neighbour is only half as far
away; the bounds themselves round to an even mantissa. -/
def Interval.ofBinary (mantissa : Nat) (power : Int) (isLowest : Bool) : Interval :=
  let scale := Nat.pow 2 power.toNat
  let narrow := mantissa = Nat.pow 2 52 && !isLowest
  { low := (4 * mantissa - (if narrow then 1 else 2)) * scale
    value := 4 * mantissa * scale
    high := (4 * mantissa + 2) * scale
    denominator := 4 * Nat.pow 2 (-power).toNat
    inclusive := mantissa % 2 = 0 }

/-- Where a number goes that lies halfway between two neighbours. -/
inductive Tie where
  | toEven
  | up
  deriving DecidableEq

/-- Whether `below + rest / denominator` is rounded to `below + 1`. -/
def Tie.takesAbove (tie : Tie) (below rest denominator : Nat) : Bool :=
  denominator < 2 * rest || 2 * rest = denominator && (tie = .up || below % 2 = 1)

namespace Interval

/-- The least `e` with `value < 10 ^ e`, as far as a double can reach. -/
def order (interval : Interval) : Int :=
  let whole := interval.value / interval.denominator
  if whole = 0 then
    let zeros := ((List.range 400).find? fun z =>
      interval.denominator ≤ interval.value * Nat.pow 10 (z + 1)).getD 0
    Int.negOfNat zeros
  else ((Nat.toDigits 10 whole).length : Int)

/-- Whether `digits * 10 ^ exponent` rounds to the value. -/
def holds (interval : Interval) (point : Scaled) : Bool :=
  let scaled := point.digits * Nat.pow 10 point.exponent.toNat * interval.denominator
  let unit := Nat.pow 10 (-point.exponent).toNat
  if interval.inclusive then
    interval.low * unit ≤ scaled && scaled ≤ interval.high * unit
  else interval.low * unit < scaled && scaled < interval.high * unit

/-- The nearest point with `count` digits that rounds to the value, if there is one. -/
def pointWith? (tie : Tie) (interval : Interval) (count : Nat) : Option Scaled :=
  let exponent := interval.order - count
  let numerator := interval.value * Nat.pow 10 (-exponent).toNat
  let denominator := interval.denominator * Nat.pow 10 exponent.toNat
  let whole := numerator / denominator
  let below : Scaled := ⟨whole, exponent⟩
  let above : Scaled := ⟨whole + 1, exponent⟩
  match interval.holds below, interval.holds above with
  | true, true =>
    some (if tie.takesAbove whole (numerator % denominator) denominator then above else below)
  | true, false => some below
  | false, true => some above
  | false, false => none

/-- Seventeen digits are always enough. -/
def shortest (tie : Tie) (interval : Interval) : Scaled :=
  ((List.range 17).findSome? fun n => interval.pointWith? tie (n + 1)).getD ⟨0, 0⟩

/-- The value rounded to `count` digits. -/
def rounded (tie : Tie) (count : Nat) (interval : Interval) : Scaled :=
  let exponent := interval.order - count
  let numerator := interval.value * Nat.pow 10 (-exponent).toNat
  let denominator := interval.denominator * Nat.pow 10 exponent.toNat
  let whole := numerator / denominator
  ⟨if tie.takesAbove whole (numerator % denominator) denominator then whole + 1 else whole,
    exponent⟩

end Interval

/-- Trailing zeros moved into the exponent. -/
def Scaled.trimmed (point : Scaled) : Scaled :=
  let zeros := ((Nat.toDigits 10 point.digits).reverse.takeWhile (· = '0')).length
  if point.digits = 0 then point
  else ⟨point.digits / Nat.pow 10 zeros, point.exponent + zeros⟩

/-- A double is not a number, infinite, or a signed decimal. -/
inductive Parts where
  | notANumber
  | infinite (negative : Bool)
  | finite (negative : Bool) (point : Scaled)

/-- The decimal that `choose` takes from the interval of a double. -/
def ofFloatBy (choose : Interval → Scaled) (x : Float) : Parts :=
  let bits := x.toBits.toNat
  let negative := Nat.pow 2 63 ≤ bits
  let exponent : Nat := bits / Nat.pow 2 52 % 2048
  let fraction := bits % Nat.pow 2 52
  if exponent = 2047 then
    if fraction = 0 then .infinite negative else .notANumber
  else if exponent = 0 then
    if fraction = 0 then .finite negative ⟨0, 0⟩
    else .finite negative (choose (.ofBinary fraction (-1074) true)).trimmed
  else
    .finite negative
      (choose (.ofBinary (Nat.pow 2 52 + fraction) ((exponent : Int) - 1075) (exponent = 1))).trimmed

end Polyglot.Decimal
