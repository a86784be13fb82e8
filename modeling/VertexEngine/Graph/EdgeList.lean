import VertexEngine.Graph.Basic
import VertexEngine.Decimal.Reader
import VertexEngine.Text.Blank

/-!
# Edge lists

The text form of a graph: one edge a line, as `source target weight` with blanks between.  Blank
lines and lines whose first character is `#` say nothing.  Every number from zero to the largest one
mentioned becomes a vertex, so numbers are held against a limit before a graph is built.

The first offending line decides the error, and within it the first check that fails: the number of
fields, the source, the target, the weight, whether the weight is finite, the limit for the source,
the limit for the target.
-/

namespace VertexEngine.EdgeList

/-- The limit on the number of vertices that holds unless another one is given. -/
def defaultLimit : Nat := 67108864

/-- Which endpoint of an edge a field names. -/
inductive Endpoint where
  | source
  | target
  deriving DecidableEq, Repr

def Endpoint.name : Endpoint → String
  | source => "source"
  | target => "target"

/-- Why a line is refused. -/
inductive LineFault where
  /-- The bytes are not UTF-8. -/
  | notText
  | fieldCount (count : Nat)
  | badId (endpoint : Endpoint) (field : String) (fault : Decimal.NatFault)
  | badWeight (field : String)
  | infiniteWeight (weight : Float)
  | beyondLimit (id : VertexId) (limit : Nat)

/-- The error for a fault on the line with this number. -/
def LineFault.toError (line : Nat) : LineFault → EngineError
  | notText => .io "stream did not contain valid UTF-8"
  | fieldCount count => .parse line s!"expected `source target weight`, got {count} field(s)"
  | badId endpoint field fault =>
    .parse line s!"invalid {endpoint.name} id '{field}': {fault.message}"
  | badWeight field => .parse line s!"invalid weight '{field}': invalid float literal"
  | infiniteWeight weight =>
    .parse line ("weight must be finite, got " ++ Decimal.plain.text weight)
  | beyondLimit id limit =>
    .parse line s!"vertex id {id.toNat} exceeds the limit of {limit} vertices"

/-- One edge as it is listed. -/
abbrev Record := Edge Float

/-- The vertex number in a field. -/
def readId (endpoint : Endpoint) (field : List Char) : Except LineFault VertexId :=
  match Decimal.readNat UInt32.size field with
  | .ok n => .ok (UInt32.ofNat n)
  | .error fault => .error (.badId endpoint (String.ofList field) fault)

/-- The weight in a field. -/
def readWeight (field : List Char) : Except LineFault Float :=
  match Decimal.readFloat? field with
  | none => .error (.badWeight (String.ofList field))
  | some weight => if weight.isFinite then .ok weight else .error (.infiniteWeight weight)

/-- Refuses a vertex number at or above the limit. -/
def checkLimit (limit : Nat) (id : VertexId) : Except LineFault Unit :=
  if id.toNat < limit then .ok () else .error (.beyondLimit id limit)

/-- The edge on a line that has been trimmed and is not skipped. -/
def readRecord (limit : Nat) (line : List Char) : Except LineFault Record :=
  match Text.words line with
  | [source, target, weight] => do
    let source ← readId .source source
    let target ← readId .target target
    let weight ← readWeight weight
    checkLimit limit source
    checkLimit limit target
    return ⟨source, target, weight⟩
  | fields => .error (.fieldCount fields.length)

/-- What a line says: nothing, or one edge. -/
def readLine (limit : Nat) (bytes : List UInt8) : Except LineFault (Option Record) :=
  match String.fromUTF8? (ByteArray.mk bytes.toArray) with
  | none => .error .notText
  | some line =>
    match Text.trim line.toList with
    | [] => .ok none
    | '#' :: _ => .ok none
    | trimmed => some <$> readRecord limit trimmed

/-- The edges on the lines, the first of which has the given number. -/
def readLines (limit : Nat) (first : Nat) (lines : List (List UInt8)) :
    Except EngineError (List Record) := do
  let read ← (lines.zipIdx first).mapM fun (line, number) =>
    (readLine limit line).mapError (·.toError number)
  return read.filterMap id

/-- One more than the largest vertex number in the records, or zero. -/
def vertexCount (records : List Record) : Nat :=
  records.foldl (fun n r => max n (max r.source.toNat r.target.toNat + 1)) 0

/-- Adds the vertices that the records need, with value `initial`, and then their edges. -/
def build {V : Type} (initial : V) (records : List Record) : Graph.Edit V Float Unit := do
  Graph.ensureVertices (vertexCount records) initial
  for r in records do
    let _ ← Graph.addEdge r.source r.target r.data

/-- The graph that an edge list describes, with value `initial` at every vertex. -/
def read {V : Type} (initial : V) (limit : Nat) (text : List UInt8) :
    Except EngineError (Graph V Float) := do
  let records ← readLines (min limit Graph.maxVertices) 1 (Text.lines text)
  match (build initial records).run {} with
  | (.ok (), g) => return g
  | (.error e, _) => throw e

end VertexEngine.EdgeList
