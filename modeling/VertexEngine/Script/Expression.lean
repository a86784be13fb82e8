import VertexEngine.Decimal.Remainder
import VertexEngine.Program

/-!
# Expressions

The expressions of scripted vertex programs.  An expression has a double as its value.  It can ask
the engine, so its value is found by a program: `Expression.eval` asks the questions from left to
right, and stops at the first that is answered with an error.
-/

namespace VertexEngine.Script

/-- An operation on two doubles; a comparison gives one or zero. -/
inductive Operator where
  | add
  | sub
  | mul
  | div
  | rem
  | lt
  | gt
  | eq
  | max
  | min
  deriving DecidableEq, Repr

/-- The value of an operation.  Of two values that do not compare, `max` and `min` give the
first. -/
def Operator.apply (op : Operator) (a b : Float) : Float :=
  let holds (c : Bool) : Float := if c then 1.0 else 0.0
  match op with
  | add => a + b
  | sub => a - b
  | mul => a * b
  | div => a / b
  | rem => Decimal.remainder a b
  | lt => holds (a < b)
  | gt => holds (b < a)
  | eq => holds (a == b)
  | max => if a < b then b else a
  | min => if b < a then b else a

/-- What a program can ask about the vertex that it runs on, its graph and its own execution. -/
inductive Quantity where
  | vertexId
  | value
  | scheduled
  | aborted
  | vertexCount
  | edgeCount
  | inDegree
  | outDegree
  deriving DecidableEq, Repr

inductive Expression where
  | literal (x : Float)
  /-- A variable; one that was not set is zero. -/
  | named (name : String)
  | quantity (q : Quantity)
  /-- The value of the vertex with this number. -/
  | valueOf (id : Expression)
  /-- The value that a sync published last. -/
  | shared (sync : SyncId)
  | operation (op : Operator) (a b : Expression)
  deriving Inhabited

/-- The variables that are set, the latest first. -/
abbrev Variables := List (String × Float)

def Variables.get (vars : Variables) (name : String) : Float :=
  (vars.lookup name).getD 0.0

/-- The vertex number that a double stands for: its whole part, or the nearest bound. -/
def vertexOf (x : Float) : VertexId :=
  x.toUInt32

/-- Where a script runs. -/
structure Place where
  topology : Topology Float
  vertex : VertexId

/-- A program that can end early with an error, and whose variables then stay set. -/
abbrev Interpreter (F O : Type) :=
  ExceptT EngineError (StateT Variables (Program F Float Float O))

variable {F O α : Type}

/-- Asks a question that is always answered. -/
def ask (question : Program F Float Float O α) : Interpreter F O α :=
  fun vars => do return (.ok (← question), vars)

/-- Asks a question whose answer can be an error. -/
def askFor (question : Program F Float Float O (Except EngineError α)) : Interpreter F O α :=
  fun vars => do return (← question, vars)

def Quantity.eval (place : Place) : Quantity → Interpreter F O Float
  | vertexId => return place.vertex.toFloat
  | value => askFor (Program.perform (.read place.vertex))
  | scheduled => return Float.ofNat (← ask Program.countScheduled)
  | aborted => return if ← ask Program.pollAbort then 1.0 else 0.0
  | vertexCount => return Float.ofNat place.topology.outgoing.size
  | edgeCount => return Float.ofNat place.topology.edges.size
  | inDegree => return Float.ofNat (← place.topology.inDegree place.vertex)
  | outDegree => return Float.ofNat (← place.topology.outDegree place.vertex)

def Expression.eval (place : Place) : Expression → Interpreter F O Float
  | literal x => return x
  | named name => return (← get).get name
  | quantity q => q.eval place
  | valueOf id => do
    let v ← id.eval place
    askFor (Program.perform (.read (vertexOf v)))
  | shared sync => askFor (Program.perform (.readShared sync))
  | operation op a b => do
    let x ← a.eval place
    let y ← b.eval place
    return op.apply x y

/-- The value of an expression that asks nothing; a question counts as zero. -/
def Expression.pureValue (vars : Variables) : Expression → Float
  | literal x => x
  | named name => vars.get name
  | operation op a b => op.apply (a.pureValue vars) (b.pureValue vars)
  | _ => 0.0

end VertexEngine.Script
