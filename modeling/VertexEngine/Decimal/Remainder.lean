import VertexEngine.Decimal.Shortest

/-!
# Remainders of doubles

The remainder of the division of two doubles, truncated toward zero.  It is always a double itself,
so it is found in exact arithmetic on the two mantissas.
-/

namespace VertexEngine.Decimal

/-- What is left of `x` after taking away `y` as often as it fits, with the sign of `x`. -/
def remainder (x y : Float) : Float :=
  if x.isNaN || y.isNaN || x.isInf || y == 0.0 then Float.ofBits 0x7ff8000000000000
  else if y.isInf || x == 0.0 then x
  else
    let a := Binary.ofBits x.toBits
    let b := Binary.ofBits y.toBits
    let unit := min a.exponent b.exponent
    let m := a.mantissa * Nat.pow 2 (a.exponent - unit).toNat
    let n := b.mantissa * Nat.pow 2 (b.exponent - unit).toNat
    let r := (Float.ofNat (m % n)).scaleB unit
    if x < 0.0 then -r else r

end VertexEngine.Decimal
