/-!
# TOML values

The values of a TOML document, and what can be wrong with one.  A table remembers how it came to be,
because that decides who may add to it.
-/

namespace VertexEngine.Toml

/-- How a table came to be. -/
inductive Origin where
  /-- By a header of its own, or as the document itself. -/
  | header
  /-- On the way to the table of a longer header. -/
  | implied
  /-- By a dotted key. -/
  | dotted
  /-- Between braces. -/
  | inline
  deriving DecidableEq, Repr

/-- A value.  Truth values, numbers with a fraction and moments in time are told from all others,
and nothing else is known of them. -/
inductive Value where
  | text (s : String)
  /-- An integer, which has a value if its digits are digits of its base. -/
  | integer (n : Option Int)
  | truth
  | fraction
  | moment
  | array (items : List Value)
  | table (origin : Origin) (entries : List (String × Value))
  /-- The tables that headers in double brackets add up to. -/
  | tables (elements : List (List (String × Value)))

/-- The entries of a table in the order of their keys' first appearance. -/
abbrev Table := List (String × Value)

/-- The table with another value at a key that it has. -/
def Table.update (t : Table) (key : String) (value : Value) : Table :=
  t.map fun (k, old) => (k, if k = key then value else old)

/-- What can be wrong with a document. -/
inductive Fault where
  /-- The text that begins on this line is not well formed. -/
  | malformed (line : Nat)
  /-- A key is given twice, or something is added to a table that is complete. -/
  | duplicateKey (key : String)
  /-- A key goes on behind a value that is no table. -/
  | notATable (key : String)
  | unknownKey (key : String)
  | wrongType (expected : String)
  | unknownName (name : String)
  deriving DecidableEq, Repr

/-- What is said about a fault. -/
def Fault.message : Fault → String
  | malformed line => s!"malformed text on line {line}"
  | duplicateKey key => s!"duplicate key \"{key}\""
  | notATable key => s!"\"{key}\" is not a table"
  | unknownKey key => s!"unknown key \"{key}\""
  | wrongType expected => s!"expected {expected}"
  | unknownName name => s!"unknown name \"{name}\""

/-! ## Readers -/

/-- Takes something off the front of a text, or finds that the text does not begin with it. -/
abbrev Reader (α : Type) := List Char → Option (α × List Char)

/-- The text without the spaces and tabs at its front. -/
def skipBlanks (cs : List Char) : List Char :=
  cs.dropWhile fun c => c = ' ' || c = '\t'

/-- Whether a character may be in a comment, and stand for itself between quotes: no control
character but the tab may. -/
def isLineChar (c : Char) : Bool :=
  c = '\t' || (' ' ≤ c && c != '\x7f')

/-- The text behind a comment, if it begins with one. -/
def skipComment (cs : List Char) : List Char :=
  match cs with
  | '#' :: rest => rest.dropWhile isLineChar
  | _ => cs

end VertexEngine.Toml
