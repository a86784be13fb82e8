/-!
# Shortest decimals

The decimal that stands for a double: of all decimals that read back as the double, the fewest
digits, and of those with that many digits the nearest to it, or the larger of two that are equally
near.  Everything is exact arithmetic on natural numbers: a double is `mantissa * 2 ^ exponent`, and
the numbers that read back as it form an interval whose ends belong to it exactly when the mantissa
is even.
-/

namespace VertexEngine.Decimal

/-- The magnitude `mantissa * 2 ^ exponent`. -/
structure Binary where
  mantissa : Nat
  exponent : Int

/-- The magnitude `digits * 10 ^ exponent`. -/
structure Scientific where
  digits : Nat
  exponent : Int
  deriving DecidableEq, Repr

/-- The leading bit of a mantissa, which the bits of a double leave out. -/
def hiddenBit : Nat := 0x10000000000000

/-- The magnitude of a finite double, from its bits. -/
def Binary.ofBits (bits : UInt64) : Binary :=
  let fraction : Nat := bits.toNat % hiddenBit
  let scale : Nat := bits.toNat / hiddenBit % 2048
  if scale = 0 then ⟨fraction, -1074⟩ else ⟨fraction + hiddenBit, (scale : Int) - 1075⟩

/-- Whether the next smaller double is only half as far away as the next larger one. -/
def Binary.isBoundary (b : Binary) : Bool :=
  b.mantissa = hiddenBit && -1074 < b.exponent

/-- The magnitude in quarters of the gap to the next larger double. -/
def Binary.quarters (b : Binary) : Nat :=
  4 * b.mantissa

/-- The lower end of the interval that reads back as `b`, in quarters. -/
def Binary.lowQuarters (b : Binary) : Nat :=
  if b.isBoundary then 4 * b.mantissa - 1 else 4 * b.mantissa - 2

/-- The upper end of the interval that reads back as `b`, in quarters. -/
def Binary.highQuarters (b : Binary) : Nat :=
  4 * b.mantissa + 2

/-- Two factors, one for the decimal and one for the quarters, that bring `d * 10 ^ place` and
`k * 2 ^ (exponent - 2)` to the same unit. -/
def Binary.scales (b : Binary) (place : Int) : Nat × Nat :=
  let two := b.exponent - 2
  (Nat.pow 10 place.toNat * Nat.pow 2 (-two).toNat,
    Nat.pow 10 (-place).toNat * Nat.pow 2 two.toNat)

/-- Whether `d * 10 ^ place` reads back as `b`. -/
def Binary.accepts (b : Binary) (place : Int) (d : Nat) : Bool :=
  let (ten, two) := b.scales place
  let x := d * ten
  if b.mantissa % 2 = 0 then b.lowQuarters * two ≤ x && x ≤ b.highQuarters * two
  else b.lowQuarters * two < x && x < b.highQuarters * two

/-- The multiple of `10 ^ place` that reads back as `b` and is nearest to it, if there is one; the
larger of two that are equally near. -/
def Binary.onGrid? (b : Binary) (place : Int) : Option Scientific :=
  let (ten, two) := b.scales place
  let v := b.quarters * two
  let below := v / ten
  let above := below + 1
  match b.accepts place below, b.accepts place above with
  | false, false => none
  | true, false => some ⟨below, place⟩
  | false, true => some ⟨above, place⟩
  | true, true => if 2 * (v - below * ten) < ten then some ⟨below, place⟩ else some ⟨above, place⟩

/-- The number of decimal digits of a natural number. -/
def digitCount (n : Nat) : Nat :=
  (Nat.toDigits 10 n).length

/-- The decimal exponent of the leading digit of a magnitude that is not zero. -/
def Binary.leadingPlace (b : Binary) : Int :=
  let numerator := b.mantissa * Nat.pow 2 b.exponent.toNat
  let denominator := Nat.pow 2 (-b.exponent).toNat
  let guess : Int := (digitCount numerator : Int) - digitCount denominator
  if denominator * Nat.pow 10 guess.toNat ≤ numerator * Nat.pow 10 (-guess).toNat then guess
  else guess - 1

/-- The shortest decimal that reads back as `b`.  Seventeen digits always do. -/
def Binary.shortest (b : Binary) : Scientific :=
  if b.mantissa = 0 then ⟨0, 0⟩
  else
    let top := b.leadingPlace
    ((List.range 17).findSome? fun (n : Nat) => b.onGrid? (top - n)).getD ⟨b.mantissa, 0⟩

end VertexEngine.Decimal
