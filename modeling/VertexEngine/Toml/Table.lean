import VertexEngine.Toml.Basic

/-!
# Tables that grow

How the parts of a document add up to one table.  A part names its place by a path of keys; tables
on the way that do not exist come into being.  Nothing is added to a table between braces once it is
closed, dotted keys do not reach into a table that has a header of its own, and a header opens a
table only once.
-/

namespace VertexEngine.Toml.Table

/-- Whether a dotted key may pass through a table. -/
def isOpenToDots : Origin → Bool
  | .implied | .dotted => true
  | .header | .inline => false

/-- Changes the table at the end of a path, and makes the tables on the way that do not exist.
Where the path meets tables that add up, it goes through the last of them. -/
def within (dotted : Bool) (change : Origin → Table → Except Fault Table) :
    List String → Origin → Table → Except Fault Table
  | [], origin, t => change origin t
  | key :: path, _, t =>
    match t.lookup key with
    | none => do
      let origin := if dotted then .dotted else .implied
      return t ++ [(key, .table origin (← within dotted change path origin []))]
    | some (.table origin inner) => do
      if origin = .inline || (dotted && !isOpenToDots origin) then throw (.duplicateKey key)
      return t.update key (.table origin (← within dotted change path origin inner))
    | some (.tables elements) => do
      let last ← within dotted change path .header (elements.getLast?.getD [])
      return t.update key (.tables (elements.dropLast ++ [last]))
    | some _ => throw (.notATable key)

/-- Adds a value under a dotted key: the keys before the last point, and the key behind it. -/
def insert (path : List String) (key : String) (value : Value) (origin : Origin) (t : Table) :
    Except Fault Table :=
  within true
    (fun origin t =>
      if decide (origin = .dotted) = path.isEmpty || (t.lookup key).isSome then
        .error (.duplicateKey key)
      else .ok (t ++ [(key, value)]))
    path origin t

/-- Opens the table of a header. -/
def openTable (path : List String) (key : String) (t : Table) : Except Fault Table :=
  within false
    (fun _ t =>
      match t.lookup key with
      | none => .ok (t ++ [(key, .table .header [])])
      | some (.table .implied inner) => .ok (t.update key (.table .header inner))
      | some _ => .error (.duplicateKey key))
    path .header t

/-- Opens one more of the tables that the headers of this name add up to. -/
def openElement (path : List String) (key : String) (t : Table) : Except Fault Table :=
  within false
    (fun _ t =>
      match t.lookup key with
      | none => .ok (t ++ [(key, .tables [[]])])
      | some (.tables elements) => .ok (t.update key (.tables (elements ++ [[]])))
      | some _ => .error (.duplicateKey key))
    path .header t

end VertexEngine.Toml.Table
