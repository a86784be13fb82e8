import VertexEngine.Text.CaseTable

/-!
# Lower case

The full lower-casing of a text.  Each character goes to its lower-case letter, the dotted capital
I to an i with a combining dot, and a capital sigma to the final form exactly when it ends a word:
a letter with a case comes before it and none comes after it, where case-ignorable characters are
passed over.
-/

namespace VertexEngine.Text

/-- The lower-case letter of one character, taken alone. -/
def lowerChar (c : Char) : Char :=
  match lowerRuns.find? fun r =>
      r.first ≤ c.toNat && c.toNat ≤ r.last && (c.toNat - r.first) % r.step = 0 with
  | some r => Char.ofNat (c.toNat + r.shift).toNat
  | none => c

/-- Whether the first character that is not case-ignorable has a case. -/
def nearestIsCased (cs : List Char) : Bool :=
  match cs.dropWhile (inRanges caseIgnorableRanges) with
  | c :: _ => inRanges casedRanges c
  | [] => false

/-- The lower-casing of the rest of a text, where `before` is what precedes it, last character
first. -/
def lowerFrom (before : List Char) : List Char → List Char
  | [] => []
  | c :: rest =>
    (if c = 'Σ' then [if nearestIsCased before && !nearestIsCased rest then 'ς' else 'σ']
      else if c = 'İ' then ['i', '\u0307']
      else [lowerChar c])
      ++ lowerFrom (c :: before) rest

/-- The text in lower case. -/
def lower (cs : List Char) : List Char :=
  lowerFrom [] cs

end VertexEngine.Text
