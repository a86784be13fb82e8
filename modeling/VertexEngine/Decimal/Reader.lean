import VertexEngine.Decimal.Shortest

/-!
# Read numbers

How a number is read from a text.  `readNat` reads a natural number below a bound, `readFloat?` a
double: decimal digits with an optional point and an optional exponent, or the name of infinity or
of not-a-number.  A double that is not exact is rounded to the nearest one.
-/

namespace VertexEngine.Decimal

/-- Why a text is not a natural number below the bound. -/
inductive NatFault where
  | empty
  | invalidDigit
  | tooLarge
  deriving DecidableEq, Repr

/-- What is said about a text that is no natural number. -/
def NatFault.message : NatFault → String
  | .empty => "cannot parse integer from empty string"
  | .invalidDigit => "invalid digit found in string"
  | .tooLarge => "number too large to fit in target type"

/-- The digits behind `value`, read from left to right; the first fault from the left counts. -/
def readDigits (bound : Nat) (value : Nat) : List Char → Except NatFault Nat
  | [] => .ok value
  | c :: rest =>
    if c.isDigit then
      let value := 10 * value + (c.toNat - '0'.toNat)
      if value < bound then readDigits bound value rest else .error .tooLarge
    else .error .invalidDigit

/-- A natural number below `bound`: digits, with an optional plus sign before them. -/
def readNat (bound : Nat) : List Char → Except NatFault Nat
  | [] => .error .empty
  | '+' :: c :: rest => readDigits bound 0 (c :: rest)
  | c :: rest => readDigits bound 0 (c :: rest)

/-- The value of a list of decimal digits. -/
def ofDigits (ds : List Char) : Nat :=
  ds.foldl (fun n d => 10 * n + (d.toNat - '0'.toNat)) 0

/-- The double nearest to a decimal.  A decimal out of the range of doubles is recognised by the
place of its leading digit alone. -/
def Scientific.nearest (s : Scientific) : Float :=
  let place := s.exponent + digitCount s.digits
  if s.digits = 0 || place < -330 then 0.0
  else if 310 < place then Float.ofBits 0x7ff0000000000000
  else Float.ofScientific s.digits (s.exponent < 0) s.exponent.natAbs

/-- The longest run of digits at the front, and what follows it. -/
def spanDigits (cs : List Char) : List Char × List Char :=
  cs.span Char.isDigit

/-- A sign at the front, taken off: whether it is a minus. -/
def signed : List Char → Bool × List Char
  | '-' :: rest => (true, rest)
  | '+' :: rest => (false, rest)
  | cs => (false, cs)

/-- The exponent behind the digits of a number: nothing, or `e` with a sign and at least one
digit. -/
def readExponent? : List Char → Option Int
  | [] => some 0
  | c :: rest =>
    if c = 'e' || c = 'E' then
      let (negative, digits) := signed rest
      if digits.isEmpty || !digits.all Char.isDigit then none
      else some (if negative then -(ofDigits digits : Int) else ofDigits digits)
    else none

/-- An unsigned decimal with at least one digit before or behind the point. -/
def readScientific? (cs : List Char) : Option Scientific :=
  let (whole, rest) := spanDigits cs
  let (fraction, rest) := match rest with
    | '.' :: rest => spanDigits rest
    | _ => ([], rest)
  if whole.isEmpty && fraction.isEmpty then none
  else (readExponent? rest).map fun e => ⟨ofDigits (whole ++ fraction), e - fraction.length⟩

/-- A double, with an optional sign before it. -/
def readFloat? (cs : List Char) : Option Float :=
  let (negative, rest) := signed cs
  let name := String.ofList (rest.map Char.toLower)
  let magnitude? :=
    if name = "inf" || name = "infinity" then some (Float.ofBits 0x7ff0000000000000)
    else if name = "nan" then some (Float.ofBits 0x7ff8000000000000)
    else (readScientific? rest).map Scientific.nearest
  magnitude?.map fun x => if negative then -x else x

end VertexEngine.Decimal
