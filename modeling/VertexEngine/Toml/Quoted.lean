import VertexEngine.Text.Digit
import VertexEngine.Toml.Basic

/-!
# Quoted texts

Texts between quotes.  Between double quotes a backslash has a meaning, between single quotes it has
none.  Three quotes open a text that may go over several lines; it drops a line end at its very
beginning, and one or two quotes right before the three that close it are part of the text.
-/

namespace VertexEngine.Toml

open Text (hexChar?)

/-- The character that one letter behind a backslash stands for. -/
def escaped? : Char → Option Char
  | 'b' => some '\x08'
  | 't' => some '\t'
  | 'n' => some '\n'
  | 'f' => some '\x0c'
  | 'r' => some '\r'
  | 'e' => some '\x1b'
  | '"' => some '"'
  | '\\' => some '\\'
  | _ => none

/-- Puts a character before a text that was read. -/
def before (c : Char) (read : Option (List Char × List Char)) : Option (List Char × List Char) :=
  read.map fun (text, rest) => (c :: text, rest)

/-- A text up to its double quote. -/
def basicText : Reader (List Char)
  | '"' :: rest => some ([], rest)
  | '\\' :: 'x' :: a :: b :: rest => do before (← hexChar? [a, b]) (basicText rest)
  | '\\' :: 'u' :: a :: b :: c :: d :: rest => do
    before (← hexChar? [a, b, c, d]) (basicText rest)
  | '\\' :: 'U' :: a :: b :: c :: d :: e :: f :: g :: h :: rest => do
    before (← hexChar? [a, b, c, d, e, f, g, h]) (basicText rest)
  | '\\' :: c :: rest => do before (← escaped? c) (basicText rest)
  | c :: rest => if c != '\\' && isLineChar c then before c (basicText rest) else none
  | [] => none

/-- A text up to its single quote. -/
def literalText : Reader (List Char)
  | '\'' :: rest => some ([], rest)
  | c :: rest => if isLineChar c then before c (literalText rest) else none
  | [] => none

/-- Whether only spaces and tabs come before the end of the line. -/
def endsLine (cs : List Char) : Bool :=
  (skipBlanks cs).head? = some '\n'

/-- The quotes at the front of a text that closes with three of them, and what follows: two quotes
more than three belong to the text. -/
def closing? (quote : Char) (cs : List Char) : Option (List Char × List Char) :=
  let count := min 5 (cs.takeWhile (· = quote)).length
  if 3 ≤ count then some (List.replicate (count - 3) quote, cs.drop count) else none

/-- A text over several lines, up to its three double quotes.  A backslash at the end of a line
takes away the line end and all blanks and line ends that follow; `skipping` says that this is under
way. -/
def basicLines (skipping : Bool) : Reader (List Char)
  | [] => none
  | c :: rest =>
    if skipping && (c = ' ' || c = '\t' || c = '\n') then basicLines true rest
    else
      match closing? '"' (c :: rest) with
      | some closed => some closed
      | none =>
        match c, rest with
        | '\\', 'x' :: a :: b :: rest => do before (← hexChar? [a, b]) (basicLines false rest)
        | '\\', 'u' :: a :: b :: c :: d :: rest => do
          before (← hexChar? [a, b, c, d]) (basicLines false rest)
        | '\\', 'U' :: a :: b :: c :: d :: e :: f :: g :: h :: rest => do
          before (← hexChar? [a, b, c, d, e, f, g, h]) (basicLines false rest)
        | '\\', e :: rest =>
          match escaped? e with
          | some e => before e (basicLines false rest)
          | none => if endsLine (e :: rest) then basicLines true (e :: rest) else none
        | '\\', [] => none
        | c, rest => if isLineChar c || c = '\n' then before c (basicLines false rest) else none
termination_by cs => cs.length

/-- A text over several lines, up to its three single quotes. -/
def literalLines : Reader (List Char)
  | [] => none
  | c :: rest =>
    match closing? '\'' (c :: rest) with
    | some closed => some closed
    | none => if isLineChar c || c = '\n' then before c (literalLines rest) else none

/-- The text without a line end at its very beginning. -/
def dropLineEnd : List Char → List Char
  | '\n' :: rest => rest
  | cs => cs

/-- A text between quotes, on one line. -/
def quotedLine : Reader (List Char)
  | '"' :: rest => basicText rest
  | '\'' :: rest => literalText rest
  | _ => none

/-- A text between quotes. -/
def quoted : Reader (List Char)
  | '"' :: '"' :: '"' :: rest => basicLines false (dropLineEnd rest)
  | '\'' :: '\'' :: '\'' :: rest => literalLines (dropLineEnd rest)
  | cs => quotedLine cs

end VertexEngine.Toml
