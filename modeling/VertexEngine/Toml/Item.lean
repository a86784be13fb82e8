import VertexEngine.Toml.Quoted
import VertexEngine.Toml.Scalar
import VertexEngine.Toml.Table

/-!
# Items

The parts of which a document consists: headers, and entries with a key and a value.  A value may go
over several lines where it stands between brackets, braces or three quotes; between braces an entry
may.
-/

namespace VertexEngine.Toml

/-- A part of a document.  Its dotted key is cut before the last of its keys. -/
inductive Item where
  /-- A header in single brackets. -/
  | table (path : List String) (key : String)
  /-- A header in double brackets. -/
  | element (path : List String) (key : String)
  | entry (path : List String) (key : String) (value : Value)

/-! ## Keys -/

/-- Whether a character can be part of a key without quotes. -/
def isKeyChar (c : Char) : Bool :=
  c.isAlphanum || c = '_' || c = '-'

/-- One key, with quotes or without. -/
def key : Reader String := fun cs =>
  match cs with
  | '"' :: _ | '\'' :: _ => (quotedLine cs).map fun (text, rest) => (String.ofList text, rest)
  | _ =>
    let (bare, rest) := cs.span isKeyChar
    if bare.isEmpty then none else some (String.ofList bare, rest)

/-- At most `count` keys with points between, and the blanks behind them.  The last key stands
apart. -/
def keys : Nat → Reader (List String × String)
  | 0, _ => none
  | count + 1, cs => do
    let (k, rest) ← key (skipBlanks cs)
    match skipBlanks rest with
    | '.' :: rest =>
      let ((path, last), rest) ← keys count rest
      return ((k :: path, last), rest)
    | rest => return (([], k), rest)

/-- How many keys a dotted key may have. -/
def maxKeys : Nat := 80

/-- A dotted key and the blanks behind it. -/
def dottedKey : Reader (List String × String) :=
  keys maxKeys

/-! ## Values -/

/-- The text without blanks, line ends and comments at its front; `comment` says that one is
open. -/
def skipSpace (comment : Bool) : List Char → List Char
  | [] => []
  | c :: rest =>
    if (comment && isLineChar c) || c = '#' then skipSpace true rest
    else if c = ' ' || c = '\t' || c = '\n' then skipSpace false rest
    else c :: rest

/-- At most `count` values with commas between, up to a closing bracket. -/
def arrayItems (value : Reader Value) : Nat → Reader (List Value)
  | 0, _ => none
  | count + 1, cs =>
    match skipSpace false cs with
    | ']' :: rest => some ([], rest)
    | cs => do
      let (v, rest) ← value cs
      match skipSpace false rest with
      | ',' :: rest =>
        let (vs, rest) ← arrayItems value count rest
        return (v :: vs, rest)
      | ']' :: rest => return ([v], rest)
      | _ => none

/-- A dotted key, an equals sign and a value; `skip` passes over what may stand on both sides of the
equals sign. -/
def entry (skip : List Char → List Char) (value : Reader Value) :
    Reader (List String × String × Value) := fun cs => do
  let ((path, key), rest) ← dottedKey cs
  match skip rest with
  | '=' :: rest =>
    let (v, rest) ← value (skip rest)
    return ((path, key, v), rest)
  | _ => none

/-- At most `count` entries with commas between, up to a closing brace; they are added to `t`. -/
def inlineEntries (value : Reader Value) : Nat → Table → Reader Table
  | 0, _, _ => none
  | count + 1, t, cs =>
    match skipSpace false cs with
    | '\x7d' :: rest => some (t, rest)
    | cs => do
      let ((path, key, v), rest) ← entry (skipSpace false) value cs
      let t ← (t.insert path key v .inline).toOption
      match skipSpace false rest with
      | ',' :: rest => inlineEntries value count t rest
      | '\x7d' :: rest => return (t, rest)
      | _ => none

/-- A value that is no array and no table. -/
def plainValue : Reader Value := fun cs =>
  match cs with
  | '"' :: _ | '\'' :: _ => (quoted cs).map fun (text, rest) => (.text (String.ofList text), rest)
  | _ =>
    let (w, rest) := word cs
    (Value.ofWord? w).map fun v => (v, rest)

/-- A value with at most `depth` brackets and braces around its parts. -/
def value : Nat → Reader Value
  | 0 => plainValue
  | depth + 1 => fun cs =>
    match cs with
    | '[' :: rest =>
      (arrayItems (value depth) rest.length rest).map fun (vs, rest) => (.array vs, rest)
    | '\x7b' :: rest =>
      (inlineEntries (value depth) rest.length [] rest).map fun (t, rest) =>
        (.table .inline t, rest)
    | cs => plainValue cs

/-- How many brackets and braces may be open at once. -/
def maxDepth : Nat := 80

/-! ## Lines -/

/-- The text behind the end of a line, if only blanks and a comment come before it. -/
def lineEnd? (cs : List Char) : Option (List Char) :=
  match skipComment (skipBlanks cs) with
  | [] => some []
  | '\n' :: rest => some rest
  | _ => none

/-- An item and the end of its line, or a line without one. -/
def line : Reader (Option Item) := fun cs =>
  match lineEnd? cs with
  | some rest => some (none, rest)
  | none =>
    match skipBlanks cs with
    | '[' :: '[' :: rest => do
      let ((path, key), rest) ← dottedKey rest
      match rest with
      | ']' :: ']' :: rest => return (some (.element path key), ← lineEnd? rest)
      | _ => none
    | '[' :: rest => do
      let ((path, key), rest) ← dottedKey rest
      match rest with
      | ']' :: rest => return (some (.table path key), ← lineEnd? rest)
      | _ => none
    | cs => do
      let ((path, key, v), rest) ← entry skipBlanks (value maxDepth) cs
      return (some (.entry path key v), ← lineEnd? rest)

end VertexEngine.Toml
