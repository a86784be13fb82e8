/-!
# Blanks, words and lines

The characters of the Unicode property White_Space, and the three ways a text is cut: `trim` takes
the blanks off both ends, `words` gives the longest runs without a blank, and `lines` cuts a
sequence of bytes behind each line feed.
-/

namespace VertexEngine.Text

/-- The characters with the Unicode property White_Space. -/
def isBlank (c : Char) : Bool :=
  c = ' ' || ('\t' ≤ c && c ≤ '\r') || c = '\u0085' || c = '\u00a0' || c = '\u1680'
    || ('\u2000' ≤ c && c ≤ '\u200a') || c = '\u2028' || c = '\u2029' || c = '\u202f'
    || c = '\u205f' || c = '\u3000'

/-- The text without the blanks at its two ends. -/
def trim (cs : List Char) : List Char :=
  ((cs.dropWhile isBlank).reverse.dropWhile isBlank).reverse

/-- The longest runs without a blank, from left to right. -/
def words (cs : List Char) : List (List Char) :=
  (cs.splitBy fun a b => isBlank a == isBlank b).filter fun run => run.all (!isBlank ·)

/-- The text cut behind each line feed (byte 10).  The line feeds are left out, and a last line
without one counts only if it holds a byte. -/
def lines (bytes : List UInt8) : List (List UInt8) :=
  bytes.foldr
    (fun b below =>
      if b = 10 then [] :: below
      else match below with
        | [] => [[b]]
        | line :: rest => (b :: line) :: rest)
    []

end VertexEngine.Text
