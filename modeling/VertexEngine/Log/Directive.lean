import VertexEngine.Decimal.Reader
import VertexEngine.Log.Line
import VertexEngine.Text.Alphanumeric
import VertexEngine.Text.Blank
import VertexEngine.Text.Pattern

/-!
# Directives

A directive lets through log lines up to some verbosity.  It can ask for a target that begins with a
given text, and in brackets for a span with a given name and for a field, with or without a value:
`target[span{field=value}]=level`.  Every part of it can be left out.

Spans are stretches of work that lines can belong to.  No line of this program belongs to one, and
the values of fields are looked at only on spans; so a directive that asks for either fits no line.
-/

namespace VertexEngine.Log

/-- What is asked of a field. -/
structure FieldTest where
  name : String
  /-- Whether it is asked for a value, too. -/
  hasValue : Bool
  deriving DecidableEq, Repr

/-- Lets through lines up to a verbosity. -/
structure Directive where
  /-- What the targets have to begin with; `none` for all lines. -/
  target : Option String := none
  /-- The name of the span that the lines have to belong to. -/
  span : Option String := none
  /-- The field that the lines have to carry. -/
  field : Option FieldTest := none
  verbosity : Nat
  deriving DecidableEq, Repr

namespace Directive

/-- Whether a value of a field is asked for. -/
def hasValue (d : Directive) : Bool :=
  d.field.any (·.hasValue)

/-- Whether a directive says something about a line. -/
def fits (d : Directive) (line : Line) : Bool :=
  d.span.isNone && d.target.all (·.isPrefixOf line.target)
    && d.field.all fun f => !f.hasValue && line.fields.contains f.name

/-- How much a directive says about the targets that it fits. -/
def weight (d : Directive) : Nat :=
  match d.target with
  | none => 0
  | some t => t.utf8ByteSize + 1

/-- Whether `d` says at least as much as `e` about a line that both fit: the longer target says
more, of equal targets the one with a field, and of two fields the one whose name comes later. -/
def saysAsMuchAs (d e : Directive) : Bool :=
  e.weight < d.weight || (e.weight = d.weight && match e.field, d.field with
    | none, _ => true
    | some _, none => false
    | some f, some g => f.name ≤ g.name)

end Directive

/-! ## Levels in text -/

/-- The name of a verbosity. -/
def verbosityName : Nat → String
  | 0 => "off"
  | 1 => "error"
  | 2 => "warn"
  | 3 => "info"
  | 4 => "debug"
  | _ => "trace"

/-- A level by its name; blanks around it and the case of its ASCII letters do not matter, and
`warning` is a second name. -/
def readLevel? (s : List Char) : Option Level :=
  let name := String.ofList ((Text.trim s).map Char.toLower)
  if name = "warning" then some .warn else Choice.ofName? name

/-- A verbosity in a directive: a digit up to five, the name of a level in any case, or `off`. -/
def readVerbosity? (s : List Char) : Option Nat :=
  match Decimal.readNat UInt64.size s with
  | .ok n => if n ≤ 5 then some n else none
  | .error _ =>
    let name := String.ofList (s.map Char.toLower)
    if name = "off" then some 0 else (Choice.ofName? (α := Level) name).map Level.verbosity

/-- The verbosity behind an equals sign.  Nothing there lets everything through. -/
def readLimit? : List Char → Option Nat
  | [] => some 5
  | s => readVerbosity? s

/-! ## Reading directives -/

/-- Whether a directive can begin with this character, if it does not begin with a bracket. -/
def opensDirective (c : Char) : Bool :=
  Text.isAlphanumeric c || c = '-' || c = ':' || c = '_'

/-- What is asked of a field: its name, and perhaps a value behind an equals sign.  The value has to
be a number or a pattern, and ends before a second equals sign. -/
def readField? (s : List Char) : Option FieldTest :=
  let name := s.takeWhile (· != '=')
  match s.drop name.length with
  | [] => if s.isEmpty then none else some ⟨String.ofList name, false⟩
  | _ :: rest =>
    let value := rest.takeWhile (· != '=')
    if (Decimal.readFloat? value).isSome || Text.isPattern value then
      some ⟨String.ofList name, true⟩
    else none

/-- The part of a text from one place up to another. -/
def between (start stop : Nat) (s : List Char) : List Char :=
  (s.drop start).take (stop - start)

/-- How many characters come before the first of these kinds, and the text from there on. -/
def splitAtAny (stops : List Char) (s : List Char) : Nat × List Char :=
  let length := (s.takeWhile (!stops.contains ·)).length
  (length, s.drop length)

/-- The rest of a directive whose bracket ends at a place: its verbosity. -/
def readTail? (stop : Nat) (trimmed s : List Char) : Option Nat :=
  match trimmed.drop stop with
  | [] => some 5
  | '=' :: _ => readLimit? (s.drop (stop + 1))
  | _ => none

/-- A directive with a bracket that opens right before a place. -/
def readBracket? (target : Option String) (start : Nat) (trimmed s : List Char) :
    Option Directive := do
  let (length, rest) := splitAtAny [']', '\x7b'] (trimmed.drop start)
  let stop := start + length
  let span := String.ofList (between start stop s)
  match rest with
  | [] => none
  | ']' :: _ => return { target, span := some span, verbosity := ← readTail? (stop + 1) trimmed s }
  | _ :: rest =>
    let (length, rest) := splitAtAny ['\x7d'] rest
    let field ← readField? (between (stop + 1) (stop + 1 + length) s)
    match rest with
    | _ :: ']' :: _ =>
      return {
        target
        span := if span.isEmpty then none else some span
        field := some field
        verbosity := ← readTail? (stop + 1 + length + 2) trimmed s }
    | _ => none

/-- One directive.  A target without a level, or with an empty one, lets everything through.  Blanks
around a directive are passed over when its parts are counted off, but the parts are cut from the
whole text. -/
def Directive.read? (s : List Char) : Option Directive :=
  let trimmed := Text.trim s
  let (length, rest) := splitAtAny ['=', '['] trimmed
  let target := if length = 0 then none else some (String.ofList (s.take length))
  if !trimmed.head?.any (fun c => c = '[' || opensDirective c) then none
  else
    match rest with
    | '[' :: _ => readBracket? target (length + 1) trimmed s
    | '=' :: _ => (readLimit? (s.drop (length + 1))).map fun verbosity => { target, verbosity }
    | _ =>
      match readVerbosity? s with
      | some verbosity => some { verbosity }
      | none => some { target := some (String.ofList s), verbosity := 5 }

end VertexEngine.Log
