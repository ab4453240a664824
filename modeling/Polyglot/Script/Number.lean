import Polyglot.Decimal.Nearest
import Polyglot.Decimal.Notation

/-! Numbers of Lua: integers of 64 bits that wrap around, and doubles. -/

namespace Polyglot.Script

inductive Number where
  | int (value : Int64)
  | float (value : Float)

namespace Number

def toFloat : Number → Float
  | .int value => value.toFloat
  | .float value => value

/-- Integers stay integers; a double makes the result a double. -/
def combine (onInt : Int64 → Int64 → Int64) (onFloat : Float → Float → Float) :
    Number → Number → Number
  | .int left, .int right => .int (onInt left right)
  | left, right => .float (onFloat left.toFloat right.toFloat)

def add : Number → Number → Number := combine (· + ·) (· + ·)

def sub : Number → Number → Number := combine (· - ·) (· - ·)

def mul : Number → Number → Number := combine (· * ·) (· * ·)

def negate : Number → Number
  | .int value => .int (-value)
  | .float value => .float (-value)

/-- An integer, or the nearest double where it does not fit. -/
def ofInt (value : Int) : Number :=
  if Int64.minValue.toInt ≤ value && value ≤ Int64.maxValue.toInt then .int (Int64.ofInt value)
  else
    let magnitude := Decimal.nearest value.natAbs 0
    .float (if value < 0 then -magnitude else magnitude)

def digitsValue (digits : List Char) : Nat :=
  digits.foldl (fun value c => value * 10 + (c.toNat - '0'.toNat)) 0

/-- The power of ten at the end of a numeral. -/
def exponent? : List Char → Option Int
  | [] => some 0
  | mark :: text =>
    let (negative, digits) := match text with
      | '-' :: rest => (true, rest)
      | '+' :: rest => (false, rest)
      | text => (false, text)
    if (mark = 'e' || mark = 'E') && !digits.isEmpty && digits.all Char.isDigit then
      some (if negative then -digitsValue digits else digitsValue digits)
    else none

/-- The number that a numeral stands for; a point or an exponent makes it a double. -/
def ofNumeral? (negative : Bool) (text : List Char) : Option Number :=
  let (whole, rest) := text.span Char.isDigit
  let float (fraction rest : List Char) : Option Number :=
    if whole.isEmpty && fraction.isEmpty then none
    else do
      let power ← exponent? rest
      let magnitude :=
        Decimal.nearest (digitsValue (whole ++ fraction)) (power - fraction.length)
      return .float (if negative then -magnitude else magnitude)
  match rest with
  | [] =>
    if whole.isEmpty then none
    else some (ofInt (if negative then -digitsValue whole else digitsValue whole))
  | '.' :: rest =>
    let (fraction, rest) := rest.span Char.isDigit
    float fraction rest
  | rest => float [] rest

/-- The blanks of the C locale. -/
def isBlank (c : Char) : Bool :=
  c = ' ' || '\t' ≤ c && c ≤ '\r'

/-- A text that holds a numeral, with a sign and blanks around it. -/
def ofText? (text : String) : Option Number :=
  let trimmed := ((text.toList.dropWhile isBlank).reverse.dropWhile isBlank).reverse
  match trimmed with
  | '-' :: rest => ofNumeral? true rest
  | '+' :: rest => ofNumeral? false rest
  | rest => ofNumeral? false rest

/-- Positional from 1e-4 up to 1e14, scientific with a two-digit exponent beyond. -/
def decimalText (point : Decimal.Scaled) : String :=
  let order := (toString point.digits).length + point.exponent
  if -4 < order && order ≤ 14 then point.positional
  else point.scientific 2

/-- A double shows fourteen digits. -/
def text : Number → String
  | .int value => toString value.toInt
  | .float value => (Decimal.ofFloatBy (Decimal.Interval.rounded .toEven 14) value).text decimalText

end Number

end Polyglot.Script
