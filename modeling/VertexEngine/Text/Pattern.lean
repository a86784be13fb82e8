import VertexEngine.Text.Alphanumeric
import VertexEngine.Text.Blank
import VertexEngine.Text.Digit

/-!
# Patterns

Which texts are regular expressions that an automaton can match without tables of the properties of
characters.  There are literals, classes in brackets, single characters behind a backslash, groups
with flags or names, alternatives, and the repetitions `*`, `+` and `?`.  There are no back
references, no looking around and no counted repetitions.

A pattern is made for texts of characters unless a flag says that it is for bytes.  Without tables
there are, for characters, no classes of digits, blanks or words, no boundaries of words, and no
letters without regard to their case; for bytes there are, but only where they cannot match a part
of a character.
-/

namespace VertexEngine.Text.Pattern

/-! ## Modes -/

/-- How the parts of a pattern are understood. -/
structure Mode where
  /-- Whether the pattern is for bytes. -/
  bytes : Bool := false
  /-- Whether the case of letters does not matter. -/
  anyCase : Bool := false
  /-- Whether blanks and comments between the parts mean nothing. -/
  spaced : Bool := false

/-- A text without the blanks and comments at its front; `comment` says that one is open. -/
def skipSpace (comment : Bool) : List Char → List Char
  | [] => []
  | c :: rest =>
    if comment then skipSpace (c != '\n') rest
    else if c = '#' || isBlank c then skipSpace (c = '#') rest
    else c :: rest

namespace Mode

/-- The rest of a pattern from its next part on. -/
def skip (m : Mode) (cs : List Char) : List Char :=
  if m.spaced then skipSpace false cs else cs

/-- The mode with flags set; behind a hyphen they are taken back. -/
def set (m : Mode) (flags : List Char) : Mode :=
  let set := flags.takeWhile (· != '-')
  let state (flag : Char) (before : Bool) : Bool :=
    set.contains flag || (before && !flags.contains flag)
  { bytes := !state 'u' !m.bytes, anyCase := state 'i' m.anyCase, spaced := state 'x' m.spaced }

end Mode

/-! ## Single parts -/

/-- What stands in a pattern for one character, or for nothing. -/
inductive Piece where
  /-- A character that stands for itself. -/
  | literal (c : Char)
  /-- A character by a code that one byte can hold. -/
  | code (c : Char)
  | any
  /-- Digits, blanks or the characters of words, or all others. -/
  | kind (others : Bool)
  /-- The beginning or the end of the text or of a line. -/
  | position
  /-- The beginning or the end of a word, or no such place. -/
  | boundary

namespace Piece

/-- The character that is written. -/
def char? : Piece → Option Char
  | literal c | code c => some c
  | _ => none

/-- Whether a piece can stand in a pattern. -/
def isAllowed (m : Mode) : Piece → Bool
  | literal _ => m.bytes || !m.anyCase
  | code c => if m.bytes then c.toNat < 128 else !m.anyCase
  | any => !m.bytes
  | kind others => m.bytes && !others
  | position => true
  | boundary => m.bytes

/-- Whether a piece can stand in a class. -/
def isAllowedInClass (m : Mode) : Piece → Bool
  | literal c | code c => !m.bytes || c.toNat < 128
  | kind others => m.bytes && !others
  | any | position | boundary => false

end Piece

/-- So many digits and what follows them. -/
def takeDigits? (m : Mode) : Nat → List Char → Option (List Char × List Char)
  | 0, cs => some ([], cs)
  | width + 1, cs =>
    match m.skip cs with
    | [] => none
    | c :: rest => do
      let (digits, rest) ← takeDigits? m width rest
      return (c :: digits, rest)

/-- The character with a code of so many hexadecimal digits, and what follows it. -/
def coded? (m : Mode) (width : Nat) (cs : List Char) : Option (Char × List Char) := do
  let (digits, rest) ← takeDigits? m width cs
  return (← hexChar? digits, rest)

/-- What is written behind a backslash, and what follows it. -/
def escape? (m : Mode) : List Char → Option (Piece × List Char)
  | [] => none
  | c :: rest =>
    if c = 'x' then (coded? m 2 rest).map fun (d, rest) => (.code d, rest)
    else if c = 'u' then (coded? m 4 rest).map fun (d, rest) => (.literal d, rest)
    else if c = 'U' then (coded? m 8 rest).map fun (d, rest) => (.literal d, rest)
    else if c = 'd' || c = 's' || c = 'w' then some (.kind false, rest)
    else if c = 'D' || c = 'S' || c = 'W' then some (.kind true, rest)
    else if c = 'A' || c = 'z' then some (.position, rest)
    else if c = 'b' || c = 'B' || c = '<' || c = '>' then some (.boundary, rest)
    else
      match [('a', '\x07'), ('f', '\x0c'), ('t', '\t'), ('n', '\n'), ('r', '\r'),
          ('v', '\x0b')].lookup c with
      | some d => some (.literal d, rest)
      | none => if c.toNat < 128 && !c.isAlphanum then some (.literal c, rest) else none

/-- The piece at the front of a pattern that has no part of another kind there, and what follows. -/
def piece? (m : Mode) : List Char → Option (Piece × List Char)
  | [] => none
  | c :: rest =>
    if c = '\\' then escape? m rest
    else if c = '.' then some (.any, rest)
    else if c = '^' || c = '$' then some (.position, rest)
    else some (.literal c, rest)

/-! ## Classes in brackets -/

/-- The names of classes of ASCII characters. -/
def asciiClasses : List String :=
  ["alnum", "alpha", "ascii", "blank", "cntrl", "digit", "graph", "lower", "print", "punct",
   "space", "upper", "word", "xdigit"]

/-- Whether a `^` stands before the name of a class of ASCII characters, and what follows the class.
Its name is between `[:` and `:]`, and its first bracket is taken off already. -/
def asciiClass? : List Char → Option (Bool × List Char)
  | ':' :: rest =>
    let others := rest.head? = some '^'
    let rest := if others then rest.drop 1 else rest
    let name := rest.takeWhile (· != ':')
    match rest.drop name.length with
    | ':' :: ']' :: rest =>
      if asciiClasses.contains (String.ofList name) then some (others, rest) else none
    | _ => none
  | _ => none

/-- What follows the opening of a class: a `^`, hyphens, and a closing bracket that stands for
itself because it comes first. -/
def skipClassOpening? (m : Mode) (cs : List Char) : Option (List Char) :=
  let cs := m.skip cs
  let others := cs.head? = some '^'
  if if m.bytes then others else m.anyCase then none
  else
    let cs := if others then m.skip (cs.drop 1) else cs
    let afterHyphens := cs.dropWhile fun c => c = '-' || (m.spaced && isBlank c)
    if cs.head? = some ']' then some (cs.drop 1) else some afterHyphens

/-- A character of a class, or several, and what follows. -/
def classPiece? (m : Mode) : List Char → Option (Piece × List Char)
  | [] => none
  | '\\' :: rest => escape? m rest
  | c :: rest => some (.literal c, rest)

/-- What follows a range of characters, or a piece alone. -/
def skipClassRange? (m : Mode) (cs : List Char) : Option (List Char) := do
  let (first, rest) ← classPiece? m cs
  guard (first.isAllowedInClass m)
  match m.skip rest with
  | '-' :: behind =>
    match m.skip behind with
    | ']' :: _ | '-' :: _ => return '-' :: behind
    | cs =>
      let (last, rest) ← classPiece? m cs
      guard (last.isAllowedInClass m && (← first.char?) ≤ (← last.char?))
      return rest
  | rest => return rest

/-- What follows a class; `depth` brackets are open, and at most `count` parts are read. -/
def skipClass? (m : Mode) : Nat → Nat → List Char → Option (List Char)
  | 0, _, _ => none
  | count + 1, depth, cs =>
    match m.skip cs with
    | [] => none
    | '[' :: rest =>
      match asciiClass? rest with
      | some (others, rest) =>
        if m.bytes && others then none else skipClass? m count depth rest
      | none => do skipClass? m count (depth + 1) (← skipClassOpening? m rest)
    | ']' :: rest => if depth ≤ 1 then some rest else skipClass? m count (depth - 1) rest
    | '&' :: '&' :: rest | '-' :: '-' :: rest | '~' :: '~' :: rest =>
      skipClass? m count depth rest
    | cs => do skipClass? m count depth (← skipClassRange? m cs)

/-! ## Groups -/

/-- Whether flags are well formed: each is given once, and one hyphen may stand before some. -/
def areFlags (cs : List Char) : Bool :=
  let flags := cs.filter (· != '-')
  flags.all ("imsUuxR".toList.contains ·) && flags.eraseDups.length = flags.length
    && cs.count '-' ≤ 1 && cs.getLast? != some '-'

/-- Whether a text can name a group. -/
def isGroupName (cs : List Char) : Bool :=
  let isFirst (c : Char) : Bool := c = '_' || (isAlphanumeric c && !c.isDigit)
  let isLater (c : Char) : Bool := isAlphanumeric c || "_.[]".toList.contains c
  cs.head?.any isFirst && cs.all isLater

/-- How a group begins. -/
inductive Opening where
  /-- With flags for what is in it. -/
  | group (flags : List Char)
  | named (name : List Char)
  /-- Flags for what follows, without a group. -/
  | flags (flags : List Char)

/-- How a group begins behind its bracket, and what follows. -/
def opening? (cs : List Char) : Option (Opening × List Char) :=
  let named (cs : List Char) : Option (Opening × List Char) :=
    let name := cs.takeWhile (· != '>')
    if name.length < cs.length && isGroupName name then
      some (.named name, cs.drop (name.length + 1))
    else none
  match cs with
  | '?' :: 'P' :: '<' :: rest => named rest
  | '?' :: '<' :: rest => named rest
  | '?' :: rest =>
    let flags := rest.takeWhile fun c => c != ':' && c != ')'
    match rest.drop flags.length with
    | ':' :: rest => if areFlags flags then some (.group flags, rest) else none
    | _ :: rest => if areFlags flags && !flags.isEmpty then some (.flags flags, rest) else none
    | [] => none
  | cs => some (.group [], cs)

/-! ## Whole patterns -/

/-- Whether the rest of a pattern is well formed.  The modes `outer` hold behind the groups that are
open, groups have these names, and `repeatable` says whether something comes right before the rest
that can be repeated.  At most `count` parts are read. -/
def isRest : Nat → Mode → List Mode → List (List Char) → Bool → List Char → Bool
  | 0, _, _, _, _, _ => false
  | count + 1, m, outer, names, repeatable, cs =>
    match m.skip cs with
    | [] => outer.isEmpty
    | c :: rest =>
      if c = '(' then
        match opening? (m.skip rest) with
        | some (.group flags, rest) =>
          isRest count (m.set flags) (m :: outer) names false rest
        | some (.named name, rest) =>
          !names.contains name && isRest count m (m :: outer) (name :: names) false rest
        | some (.flags flags, rest) => isRest count (m.set flags) outer names false rest
        | none => false
      else if c = ')' then
        match outer with
        | [] => false
        | m :: outer => isRest count m outer names true rest
      else if c = '|' then isRest count m outer names false rest
      else if c = '*' || c = '+' || c = '?' then
        let rest := if rest.head? = some '?' then rest.drop 1 else rest
        repeatable && isRest count m outer names true rest
      else if c = '\x7b' then false
      else if c = '[' then
        match do skipClass? m (rest.length + 1) 1 (← skipClassOpening? m rest) with
        | some rest => isRest count m outer names true rest
        | none => false
      else
        match piece? m (c :: rest) with
        | some (piece, rest) =>
          piece.isAllowed m && isRest count m outer names true rest
        | none => false

end Pattern

/-- Whether a text is a regular expression. -/
def isPattern (cs : List Char) : Bool :=
  Pattern.isRest (cs.length + 1) {} [] [] false cs

end VertexEngine.Text
