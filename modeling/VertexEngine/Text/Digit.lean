/-!
# Digits

Numbers and characters given by digits in a base up to sixteen.
-/

namespace VertexEngine.Text

/-- The value of a digit in a base up to sixteen. -/
def digit? (base : Nat) (c : Char) : Option Nat :=
  let n :=
    if c.isDigit then c.toNat - '0'.toNat
    else if 'a' ≤ c && c ≤ 'f' then c.toNat - 'a'.toNat + 10
    else if 'A' ≤ c && c ≤ 'F' then c.toNat - 'A'.toNat + 10
    else base
  if n < base then some n else none

/-- The number that digits of a base write. -/
def number? (base : Nat) (digits : List Char) : Option Nat :=
  digits.foldlM (fun n d => (digit? base d).map (base * n + ·)) 0

/-- The character with a code given in hexadecimal digits. -/
def hexChar? (digits : List Char) : Option Char := do
  let code ← number? 16 digits
  if code.isValidChar then some (Char.ofNat code) else none

end VertexEngine.Text
