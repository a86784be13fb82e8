import VertexEngine.Queue.Priority
import VertexEngine.Script.Expression

/-!
# Statements

Scripted vertex programs: lists of statements over doubles.  A script is data, so that it can be
written down, compared and read from a file; `Statement.run` gives its meaning as a vertex program.
The first error ends a script, unless a `attempt` around it catches it.
-/

namespace VertexEngine.Script

/-- What a script leaves for its author. -/
inductive Note where
  | numbers (xs : List Float)
  | text (s : String)
  /-- The script requested an abort. -/
  | abortRaised

/-- The edges at a vertex, by direction. -/
inductive Direction where
  | incoming
  | outgoing
  deriving DecidableEq, Repr

/-- A statement over update functions named by values of `F`. -/
inductive Statement (F : Type) where
  | set (e : Expression)
  | add (e : Expression)
  | assign (name : String) (e : Expression)
  | log (es : List Expression)
  /-- Schedule a function, or else the running one, on a vertex; at the default priority if none is
  given. -/
  | schedule (v : Expression) (update : Option F) (priority : Option Expression)
  /-- The first list if the condition is not zero, and else the second. -/
  | branch (condition : Expression) (yes no : List (Statement F))
  /-- The list for each edge of the vertex, with `source`, `target` and `weight` set. -/
  | eachEdge (direction : Direction) (body : List (Statement F))
  /-- The list; an error in it is noted and forgotten. -/
  | attempt (body : List (Statement F))
  | fail (text : String)
  | panic
  | abort
  deriving Inhabited

variable {F : Type}

/-- Leaves a note. -/
def leave (n : Note) : Interpreter F Note Unit :=
  ask (Program.observe n)

/-- Requests an update. -/
def request (v : VertexId) (update : F) (priority : Float) : Interpreter F Note Unit :=
  askFor (Program.perform (.schedule v update priority))

/-- The edges at the place, in order. -/
def Place.edges (place : Place) : Direction → Except EngineError (List (Edge Float))
  | .incoming => (·.toList) <$> place.topology.incomingEdges place.vertex
  | .outgoing => (·.toList) <$> place.topology.outgoingEdges place.vertex

/-- The variables inside a loop over edges. -/
def edgeVariables (e : Edge Float) : Variables :=
  [("source", e.source.toFloat), ("target", e.target.toFloat), ("weight", e.data)]

mutual

/-- What a statement does when the function with the name `self` runs it. -/
def Statement.run (self : F) (place : Place) : Statement F → Interpreter F Note Unit
  | .set e => do
    let x ← e.eval place
    ask (Program.write x)
  | .add e => do
    let x ← e.eval place
    let own ← Quantity.value.eval place
    ask (Program.write (own + x))
  | .assign name e => do
    let x ← e.eval place
    modify ((name, x) :: ·)
  | .log es => do
    let xs ← es.mapM (·.eval place)
    leave (.numbers xs)
  | .schedule v update priority => do
    let v ← v.eval place
    let priority ← match priority with
      | some e => e.eval place
      | none => pure Priority.default
    request (vertexOf v) (update.getD self) priority
  | .branch condition yes no => do
    let x ← condition.eval place
    if x == 0.0 then Statement.runAll self place no else Statement.runAll self place yes
  | .eachEdge direction body => do
    let edges ← place.edges direction
    edges.forM fun e => do
      modify (edgeVariables e ++ ·)
      Statement.runAll self place body
  | .attempt body =>
    tryCatch (Statement.runAll self place body) fun e => leave (.text e.message)
  | .fail text => throw (.other text)
  | .panic => fun _ => Program.panic
  | .abort => do
    ask Program.raiseAbort
    leave .abortRaised

/-- What a list of statements does. -/
def Statement.runAll (self : F) (place : Place) : List (Statement F) → Interpreter F Note Unit
  | [] => return ()
  | s :: rest => do
    Statement.run self place s
    Statement.runAll self place rest

end

/-- A script as a vertex program. -/
def program (script : List (Statement F)) (self : F) (t : Topology Float) (v : VertexId) :
    Program F Float Float Note Unit := do
  let (result, _) ← (Statement.runAll self ⟨t, v⟩ script).run.run []
  Program.ofExcept result

end VertexEngine.Script
