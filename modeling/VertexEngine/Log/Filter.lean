import VertexEngine.Log.Directive

/-!
# Log filters

Which log lines are shown.  A filter is a list of directives.  For a line the directive decides that
says most among those that fit it, and of two that say the same the later one.  A line that no
directive fits is not shown.

A filter is read from a text: a single level, or directives with commas between them.  A text that
cannot be read counts as the level `info`, and so does a blank one.
-/

namespace VertexEngine.Log

/-- The directives, in the order in which they were given. -/
abbrev Filter := List Directive

namespace Filter

/-- Everything up to a level. -/
def upTo (l : Level) : Filter :=
  [{ verbosity := l.verbosity }]

/-- The directive that decides about a line. -/
def deciding? (f : Filter) (line : Line) : Option Directive :=
  (f.filter (·.fits line)).foldl
    (fun best d => match best with
      | none => some d
      | some e => if d.saysAsMuchAs e then some d else some e)
    none

/-- Whether a line is shown. -/
def shows (f : Filter) (line : Line) : Bool :=
  match f.deciding? line with
  | none => false
  | some d => line.level.verbosity ≤ d.verbosity

/-- The greatest verbosity that any line or span can have.  Spans of all levels have to be watched
where a value of a field is asked for. -/
def maxVerbosity (f : Filter) : Nat :=
  if f.any (·.hasValue) then 5 else f.foldl (fun n d => max n d.verbosity) 0

end Filter

/-! ## Reading filters -/

/-- The pieces of a text between its commas. -/
def pieces (s : List Char) : List (List Char) :=
  s.foldr
    (fun c below =>
      if c = ',' then [] :: below
      else match below with
        | [] => [[c]]
        | piece :: rest => (c :: piece) :: rest)
    [[]]

/-- Directives with commas between them; empty ones are passed over. -/
def Filter.read? (s : List Char) : Option Filter :=
  ((pieces s).filter (!·.isEmpty)).mapM Directive.read?

/-- The filter of a setting, if there is one. -/
def Filter.ofSetting (setting : Option String) : Filter :=
  match Text.trim (setting.getD "").toList with
  | [] => upTo .info
  | text =>
    match readLevel? text with
    | some level => upTo level
    | none => (Filter.read? text).getD (upTo .info)

end VertexEngine.Log
