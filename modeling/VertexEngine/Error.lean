import VertexEngine.Identifier
import VertexEngine.Decimal.Printer

/-!
# Errors

Everything that can go wrong in the engine, by cause, and the one place where the causes are put
into words.
-/

namespace VertexEngine

/-- What can go wrong. -/
inductive EngineError where
  /-- The engine cannot be set up with these options. -/
  | initialization (reason : String)
  | notFound (vertex : VertexId)
  | useAfterDestroy
  | graphNotBound
  /-- The options cannot change while tasks are pending. -/
  | optionsLocked (pending : Nat)
  /-- A vertex program failed; what it wrote before stays. -/
  | update (vertex : VertexId) (source : EngineError)
  | invalidPriority (priority : Float)
  | graphFull (max : Nat)
  | unknownSync (id : SyncId)
  | aborted
  | workerSpawn (reason : String)
  | workerPanicked
  /-- The settings are well formed but make no sense. -/
  | configuration (reason : String)
  /-- A line of an edge list is refused. -/
  | parse (line : Nat) (reason : String)
  /-- A file cannot be read. -/
  | io (reason : String)
  /-- The settings file is not well formed. -/
  | toml (reason : String)
  /-- A program's own words. -/
  | other (text : String)

namespace EngineError

/-- The text shown for an error. -/
def message : EngineError → String
  | initialization reason => s!"Initialization error: {reason}"
  | notFound vertex => s!"Vertex not found: {vertex.toNat}"
  | useAfterDestroy => "Engine used after destroy()"
  | graphNotBound => "No graph bound to the engine"
  | optionsLocked pending =>
    s!"Engine options cannot change while {pending} task(s) are pending"
  | update vertex source =>
    s!"Update function failed on vertex {vertex.toNat}: " ++ source.message
  | invalidPriority priority => "Invalid task priority: " ++ Decimal.plain.text priority
  | graphFull max => s!"Graph is full: at most {max} vertices or edges"
  | unknownSync id => s!"Sync {id} is not registered with this engine"
  | aborted => "Run aborted"
  | workerSpawn reason => s!"Failed to spawn worker thread: {reason}"
  | workerPanicked => "Worker thread panicked"
  | configuration reason => s!"Configuration error: {reason}"
  | parse line reason => s!"Parse error on line {line}: {reason}"
  | io reason => s!"IO error: {reason}"
  | toml reason => s!"TOML parsing error: {reason}"
  | other text => text

/-- The texts of the errors that led to this one, nearest first. -/
def causes : EngineError → List String
  | update _ source => source.message :: source.causes
  | workerSpawn reason => [reason]
  | io reason => [reason]
  | toml reason => [reason]
  | _ => []

end EngineError

end VertexEngine
