import VertexEngine.Text.Digit
import VertexEngine.Toml.Basic

/-!
# Scalars without quotes

Numbers, truth values and moments in time.  A number is decimal, or an integer behind `0x`, `0o` or
`0b`; underscores may stand between its digits.  Only decimal numbers have a sign, and no decimal
number has a zero before its other digits.

A word is known for an integer by less than all of its digits.  So it can have the form of one and
still no value, which is a fault only where the value is asked for.
-/

namespace VertexEngine.Toml

open Text (digit? number?)

/-! ## Digits -/

/-- The number that digits of a base write, underscores aside. -/
def digits? (base : Nat) (cs : List Char) : Option Nat :=
  match cs.filter (· != '_') with
  | [] => none
  | digits => number? base digits

/-- Whether a digit stands on both sides of every underscore; `before` says whether one comes right
before the text. -/
def isSpaced (isDigit : Char → Bool) (before : Bool) : List Char → Bool
  | [] => true
  | '_' :: rest => before && rest.head?.any isDigit && isSpaced isDigit false rest
  | c :: rest => isSpaced isDigit (isDigit c) rest

/-- The digits and underscores at the front, and what follows them. -/
def digitRun (cs : List Char) : List Char × List Char :=
  cs.span fun c => c.isDigit || c = '_'

/-- Whether no zero stands before other digits. -/
def hasNoIdleZero (cs : List Char) : Bool :=
  cs = ['0'] || cs.head? != some '0'

/-- The sign at the front, if there is one, and what follows it. -/
def takeSign : List Char → Option Char × List Char
  | '-' :: rest => (some '-', rest)
  | '+' :: rest => (some '+', rest)
  | cs => (none, cs)

/-! ## Numbers -/

/-- The value of an integer in a base up to sixteen.  No digits at all have the form of one. -/
def based? (base : Nat) (cs : List Char) : Option (Option Int) :=
  let isDigit c := (digit? base c).isSome
  if cs.all (fun c => isDigit c || c = '_') && isSpaced isDigit false cs then
    some ((digits? base cs).map Int.ofNat)
  else none

/-- The value of a decimal integer, which may have a sign.  A word has the form of one if nothing
but digits comes before its first underscore; behind that there can be anything but a point, a space
and the letter e, only that every underscore needs hexadecimal digits at its sides. -/
def decimal? (w : List Char) : Option (Option Int) :=
  let (sign, cs) := takeSign w
  let rest := cs.dropWhile Char.isDigit
  let hasForm := !cs.isEmpty && hasNoIdleZero cs && (rest.isEmpty || rest.head? = some '_')
    && !rest.any (fun c => c = '.' || c = ' ' || c = 'e' || c = 'E')
    && isSpaced (fun c => (digit? 16 c).isSome) false cs
  if hasForm then
    some ((digits? 10 cs).map fun n => if sign = some '-' then -(n : Int) else n)
  else none

/-- The value of a word that has the form of an integer. -/
def integer? : List Char → Option (Option Int)
  | '0' :: 'x' :: rest => based? 16 rest
  | '0' :: 'o' :: rest => based? 8 rest
  | '0' :: 'b' :: rest => based? 2 rest
  | w => decimal? w

/-- Whether a text is the exponent of a number. -/
def isExponent : List Char → Bool
  | c :: rest =>
    let (digits, rest) := digitRun (takeSign rest).2
    (c = 'e' || c = 'E') && !digits.isEmpty && rest.isEmpty
  | [] => false

/-- Whether a text is a point with digits, an exponent, or both. -/
def isFractionTail : List Char → Bool
  | '.' :: rest =>
    let (digits, rest) := digitRun rest
    !digits.isEmpty && (rest.isEmpty || isExponent rest)
  | cs => isExponent cs

/-- Whether a word is a number with a point or an exponent, or the name of infinity or of
not-a-number. -/
def isFraction (w : List Char) : Bool :=
  let cs := (takeSign w).2
  let (whole, rest) := digitRun cs
  cs = "inf".toList || cs = "nan".toList
    || (!whole.isEmpty && hasNoIdleZero whole && isFractionTail rest
      && isSpaced Char.isDigit false cs)

/-! ## Moments -/

/-- A number of exactly this many decimal digits at the front. -/
def fixed (width : Nat) : Reader Nat := fun cs => do
  let digits := cs.take width
  if digits.length = width && !digits.contains '_' then
    return (← digits? 10 digits, cs.drop width)
  else none

/-- The days of a month. -/
def daysIn (year month : Nat) : Nat :=
  if month = 2 then
    if year % 4 = 0 && (year % 100 != 0 || year % 400 = 0) then 29 else 28
  else if month = 4 || month = 6 || month = 9 || month = 11 then 30 else 31

/-- What follows this character. -/
def behind (c : Char) : List Char → Option (List Char)
  | d :: rest => if d = c then some rest else none
  | [] => none

/-- A day at the front, as `YYYY-MM-DD`; what follows it. -/
def skipDay? (cs : List Char) : Option (List Char) := do
  let (year, rest) ← fixed 4 cs
  let (month, rest) ← fixed 2 (← behind '-' rest)
  let (day, rest) ← fixed 2 (← behind '-' rest)
  guard (1 ≤ month && month ≤ 12 && 1 ≤ day && day ≤ daysIn year month)
  return rest

/-- Hours and minutes at the front; what follows them. -/
def skipMinutes? (cs : List Char) : Option (List Char) := do
  let (hours, rest) ← fixed 2 cs
  let (minutes, rest) ← fixed 2 (← behind ':' rest)
  guard (hours ≤ 23 && minutes ≤ 59)
  return rest

/-- A time of day at the front, the seconds and their fraction being optional; what follows it. -/
def skipTime? (cs : List Char) : Option (List Char) := do
  let rest ← skipMinutes? cs
  match rest with
  | ':' :: rest =>
    let (seconds, rest) ← fixed 2 rest
    guard (seconds ≤ 60)
    match rest with
    | '.' :: rest =>
      let fraction := rest.takeWhile Char.isDigit
      guard !fraction.isEmpty
      return rest.drop fraction.length
    | rest => return rest
  | rest => return rest

/-- Whether a text is a distance from universal time, or empty. -/
def isOffset : List Char → Bool
  | [] => true
  | ['Z'] | ['z'] => true
  | '+' :: rest | '-' :: rest => skipMinutes? rest = some []
  | _ => false

/-- Whether a text is a day, a time of day, or both with a `T` or a space between. -/
def isMoment (cs : List Char) : Bool :=
  match skipDay? cs with
  | some [] => true
  | some (c :: rest) =>
    (c = 'T' || c = 't' || c = ' ') && match skipTime? rest with
      | some rest => isOffset rest
      | none => false
  | none => skipTime? cs = some []

/-! ## Words -/

/-- Whether a character can be part of a scalar without quotes. -/
def isWordChar (c : Char) : Bool :=
  !("=,[]\x7b\x7d \t#\r\n".toList.contains c)

/-- Whether a scalar goes on with this text, behind blanks.  No quote opens its next part. -/
def goesOn (cs : List Char) : Bool :=
  cs.head?.any fun c => isWordChar c && c != '"' && c != '\''

/-- The text of a scalar without quotes at the front, up to the blanks behind its last part. -/
def word : List Char → List Char × List Char
  | [] => ([], [])
  | c :: rest =>
    if isWordChar c || ((c = ' ' || c = '\t') && goesOn (skipBlanks rest)) then
      let (w, rest) := word rest
      (c :: w, rest)
    else ([], c :: rest)

/-- The scalar that a word writes. -/
def Value.ofWord? (w : List Char) : Option Value :=
  if w = "true".toList || w = "false".toList then some .truth
  else
    match integer? w with
    | some n => some (.integer n)
    | none =>
      if isFraction w then some .fraction
      else if isMoment w then some .moment
      else none

end VertexEngine.Toml
