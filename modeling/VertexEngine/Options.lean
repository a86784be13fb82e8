import VertexEngine.Text.Blank
import VertexEngine.Text.Lower

/-!
# Engine options

The choices that a user makes about a run: which engine, how many workers, in what order tasks are
handed out, and what happens to a task whose vertex already has one.  Each choice is a closed set of
names; a name is read without regard to letter case and blanks around it.
-/

namespace VertexEngine

/-- How scheduled tasks are executed. -/
inductive EngineKind where
  /-- One task at a time, to its end. -/
  | sequential
  /-- A pool of workers, on different vertices at the same time. -/
  | threaded
  deriving DecidableEq, Repr, Inhabited

/-- The order in which pending tasks are handed out. -/
inductive SchedulerKind where
  /-- First scheduled, first executed. -/
  | fifo
  /-- Greatest priority first, ties in scheduling order. -/
  | priority
  deriving DecidableEq, Repr, Inhabited

/-- What happens when a vertex that has a pending task is scheduled again. -/
inductive SchedulePolicy where
  /-- The pending task stays as it is, its priority apart, which can rise. -/
  | coalesce
  /-- The pending task keeps its place and takes the new update function. -/
  | replace
  /-- Another task is enqueued. -/
  | multiset
  deriving DecidableEq, Repr, Inhabited

/-- Whether at most one task a vertex can be pending. -/
def SchedulePolicy.isDeduplicating (p : SchedulePolicy) : Bool :=
  p != .multiset

/-- A closed set of named values. -/
class Choice (α : Type) where
  /-- What one of the values is called in messages. -/
  noun : String
  values : List α
  name : α → String

namespace Choice

instance : Choice EngineKind where
  noun := "engine kind"
  values := [.sequential, .threaded]
  name
    | .sequential => "sequential"
    | .threaded => "threaded"

instance : Choice SchedulerKind where
  noun := "scheduler kind"
  values := [.fifo, .priority]
  name
    | .fifo => "fifo"
    | .priority => "priority"

instance : Choice SchedulePolicy where
  noun := "schedule policy"
  values := [.coalesce, .replace, .multiset]
  name
    | .coalesce => "coalesce"
    | .replace => "replace"
    | .multiset => "multiset"

variable {α : Type} [Choice α]

/-- The value with exactly this name. -/
def ofName? (s : String) : Option α :=
  values.find? fun a => name a = s

/-- The name with a capital letter, as a developer sees it. -/
def label (a : α) : String :=
  (name a).capitalize

/-- Quoted names as a list of alternatives: commas between them, and `or` before the last. -/
def alternatives : List String → String
  | [] => ""
  | [a] => s!"\"{a}\""
  | [a, b] => s!"\"{a}\" or \"{b}\""
  | a :: rest => s!"\"{a}\", " ++ alternatives rest

/-- The value named by a text; the refusal shows the text as it was compared. -/
def parse (s : String) : Except String α :=
  let compared := String.ofList (Text.lower (Text.trim s.toList))
  match ofName? compared with
  | some a => .ok a
  | none =>
    let expected := alternatives ((values (α := α)).map name)
    .error s!"invalid {noun α}: {compared} (expected {expected})"

end Choice

/-- The options of an engine. -/
structure EngineOptions where
  engine : EngineKind := .sequential
  /-- The number of workers of a threaded engine; a sequential one has no use for it. -/
  ncpus : Nat
  scheduler : SchedulerKind := .fifo
  policy : SchedulePolicy := .coalesce
  deriving DecidableEq, Repr

/-- One task at a time, first scheduled first executed, one pending task a vertex. -/
def EngineOptions.plain : EngineOptions :=
  { ncpus := 1 }

/-- The same options with a pool of workers. -/
def EngineOptions.withWorkers (o : EngineOptions) (count : Nat) : EngineOptions :=
  { o with engine := .threaded, ncpus := count }

end VertexEngine
