import Polyglot.Decimal.Shortest

/-! Decimals as text. -/

namespace Polyglot.Decimal

private def zeros (count : Int) : String :=
  String.ofList (List.replicate count.toNat '0')

/-- Positional notation with a digit on each side of the point. -/
def Scaled.positional (point : Scaled) : String :=
  let digits := toString point.digits
  let order := digits.length + point.exponent
  if 0 ≤ point.exponent then digits ++ zeros point.exponent ++ ".0"
  else if 0 < order then
    String.ofList (digits.toList.take order.toNat) ++ "." ++
      String.ofList (digits.toList.drop order.toNat)
  else "0." ++ zeros (-order) ++ digits

/-- A power of ten, with its sign and at least `width` digits. -/
def exponentText (width : Nat) (power : Int) : String :=
  let digits := toString power.natAbs
  (if power < 0 then "e-" else "e+") ++ zeros (width - digits.length) ++ digits

/-- One digit in front of the point and a power of ten. -/
def Scaled.scientific (width : Nat) (point : Scaled) : String :=
  let digits := toString point.digits
  let power := exponentText width (digits.length + point.exponent - 1)
  match digits.toList with
  | [] => ""
  | [digit] => String.singleton digit ++ power
  | digit :: rest => String.singleton digit ++ "." ++ String.ofList rest ++ power

/-- Positional for numbers from 1e-5 up to 1e16, scientific beyond. -/
def Scaled.compact (point : Scaled) : String :=
  let order := (toString point.digits).length + point.exponent
  if point.digits = 0 then "0.0"
  else if -5 < order && order ≤ 16 then point.positional
  else point.scientific 1

def Parts.text (write : Scaled → String) : Parts → String
  | .notANumber => "NaN"
  | .infinite negative => if negative then "-inf" else "inf"
  | .finite negative point => (if negative then "-" else "") ++ write point

/-- The fewest digits that read back, in compact notation; ties go to the even digit. -/
def compactText (x : Float) : String :=
  (ofFloatBy (Interval.shortest .toEven) x).text Scaled.compact

/-- The fewest digits that read back, in positional notation; ties go away from zero. -/
def positionalText (x : Float) : String :=
  (ofFloatBy (Interval.shortest .up) x).text Scaled.positional

end Polyglot.Decimal
