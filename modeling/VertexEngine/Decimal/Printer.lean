import VertexEngine.Decimal.Shortest

/-!
# Printed doubles

The text of a double.  The digits are the shortest that read back; a `Layout` says where the point
and the exponent go.  Two layouts are in use: `plain` for messages, `pointed` for values shown to a
developer.
-/

namespace VertexEngine.Decimal

/-- The choices that are left once the digits of a number are fixed. -/
structure Layout where
  /-- Whether a whole number is written with `.0`. -/
  wholeHasPoint : Bool
  /-- The places of the leading digit, first included and last excluded, that are written without
  an exponent; `none` when an exponent is never written. -/
  positional : Option (Int × Int)

/-- Messages never show an exponent, and a whole number has no point. -/
def plain : Layout := ⟨false, none⟩

/-- A developer sees a point or an exponent in every number; the exponent is written from 1e16 up
and below 1e-4. -/
def pointed : Layout := ⟨true, some (-4, 16)⟩

/-- The digits of a number without the zeros at its end, and how many were dropped. -/
def dropZeros (ds : List Char) : List Char × Nat :=
  let zeros := ds.reverse.takeWhile (· = '0')
  (ds.take (ds.length - zeros.length), zeros.length)

/-- The digits written with a point behind the first `whole` of them, padded with zeros. -/
def Layout.placed (l : Layout) (ds : List Char) (whole : Int) : List Char :=
  if whole ≤ 0 then '0' :: '.' :: (List.replicate (-whole).toNat '0' ++ ds)
  else if ds.length ≤ whole.toNat then
    ds ++ List.replicate (whole.toNat - ds.length) '0'
      ++ (if l.wholeHasPoint then ['.', '0'] else [])
  else ds.take whole.toNat ++ '.' :: ds.drop whole.toNat

/-- One digit, the point and the other digits if there are any, and the place of the first digit. -/
def exponential (ds : List Char) (place : Int) : List Char :=
  let mantissa := match ds with
    | [] => []
    | [d] => [d]
    | d :: more => d :: '.' :: more
  mantissa ++ 'e' :: (toString place).toList

/-- The text of a magnitude. -/
def Layout.magnitude (l : Layout) (s : Scientific) : List Char :=
  if s.digits = 0 then l.placed ['0'] 1
  else
    let (ds, zeros) := dropZeros (Nat.toDigits 10 s.digits)
    let place : Int := s.exponent + zeros + ds.length - 1
    match l.positional with
    | some (low, high) =>
      if low ≤ place && place < high then l.placed ds (place + 1) else exponential ds place
    | none => l.placed ds (place + 1)

/-- The text of a double: `NaN`, `inf`, or its shortest decimal, with a sign if it is negative. -/
def Layout.text (l : Layout) (x : Float) : String :=
  if x.isNaN then "NaN"
  else
    let bits := x.toBits
    let sign := if bits.toNat / 0x8000000000000000 = 1 then ['-'] else []
    let body := if x.isInf then ['i', 'n', 'f'] else l.magnitude (Binary.ofBits bits).shortest
    String.ofList (sign ++ body)

end VertexEngine.Decimal
