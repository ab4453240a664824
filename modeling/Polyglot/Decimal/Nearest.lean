/-! Reading decimals as doubles. -/

namespace Polyglot.Decimal

/-- The double closest to `digits * 10 ^ exponent`. Far beyond the doubles on either side nothing
is computed. -/
def nearest (digits : Nat) (exponent : Int) : Float :=
  let order := (toString digits).length + exponent
  if digits = 0 || order < -400 then 0
  else if 400 < order then 1 / 0
  else Float.ofScientific digits (exponent < 0) exponent.natAbs

end Polyglot.Decimal
