import VertexEngine.Error
import VertexEngine.Log.Line
import VertexEngine.Toml.Document

/-!
# Settings

The settings file: a TOML document with a section for the engine and one for the scheduler, in which
everything can be left out.  A section is a table, or an array that gives the fields in their order.
-/

namespace VertexEngine

/-- What a settings file says. -/
structure Settings where
  engine : EngineKind := .sequential
  /-- The number of workers, if it is given. -/
  ncpus : Option Nat := none
  scheduler : SchedulerKind := .fifo
  policy : SchedulePolicy := .coalesce
  deriving DecidableEq, Repr

namespace Settings

open Toml (Fault Value Table)

/-! ## Reading -/

/-- The values at two keys of a table that has no others. -/
def entries (first second : String) (t : Table) :
    Except Fault (Option Value × Option Value) :=
  match t.find? fun (key, _) => key != first && key != second with
  | some (key, _) => .error (.unknownKey key)
  | none => .ok (List.lookup first t, List.lookup second t)

/-- The values of the two fields of a section.  What comes behind them in an array does not
count. -/
def fields (first second : String) : Value → Except Fault (Option Value × Option Value)
  | .table _ t => entries first second t
  | .array items => .ok (items[0]?, items[1]?)
  | .tables elements =>
    .ok (elements[0]?.map (Value.table .header), elements[1]?.map (Value.table .header))
  | _ => .error (.wrongType "a section")

/-- The values of the two fields of a section that can be left out. -/
def section? (first second : String) :
    Option Value → Except Fault (Option Value × Option Value)
  | none => .ok (none, none)
  | some v => fields first second v

/-- Whether a value holds nothing. -/
def isEmpty : Value → Bool
  | .table _ t => t.isEmpty
  | .array items => items.isEmpty
  | _ => false

/-- A kind by its exact name: as a text, or as the only key of a table, with an empty value. -/
def kind {α : Type} [Choice α] (v : Value) : Except Fault α :=
  let named (name : String) : Except Fault α :=
    match Choice.ofName? name with
    | some a => .ok a
    | none => .error (.unknownName name)
  match v with
  | .text s => named s
  | .table _ [(name, inner)] =>
    if isEmpty inner then named name else .error (.wrongType "an empty table")
  | _ => .error (.wrongType (Choice.noun α))

/-- A natural number of at most sixty-four binary digits. -/
def count (v : Value) : Except Fault Nat :=
  match v with
  | .integer (some n) =>
    if 0 ≤ n && n < UInt64.size then .ok n.toNat else .error (.wrongType "a number of workers")
  | _ => .error (.wrongType "a number of workers")

/-- The settings in a document. -/
def ofTable (t : Table) : Except Fault Settings := do
  let (engineSection, schedulerSection) ← entries "engine" "scheduler" t
  let (engine, ncpus) ← section? "kind" "ncpus" engineSection
  let (scheduler, policy) ← section? "kind" "policy" schedulerSection
  return {
    engine := (← engine.mapM kind).getD .sequential
    ncpus := ← ncpus.mapM count
    scheduler := (← scheduler.mapM kind).getD .fifo
    policy := (← policy.mapM kind).getD .coalesce }

/-- The settings in the text of a file. -/
def parse (text : String) : Except EngineError Settings :=
  (Table.read text >>= ofTable).mapError fun fault => .toml fault.message

/-! ## Sense -/

/-- Refuses settings without a worker. -/
def check (s : Settings) : Except EngineError Unit :=
  if s.ncpus = some 0 then .error (.configuration "[engine].ncpus must be >= 1 (got 0)") else .ok ()

/-- What the log says about settings that make sense. -/
def remarks (s : Settings) : List Log.Line :=
  match s.ncpus, s.engine with
  | some n, .sequential =>
    if 1 < n then
      [⟨.warn, "vertexflow::config::validate",
        "[engine].ncpus is ignored by the sequential engine", ["ncpus"]⟩]
    else []
  | _, _ => []

/-- The settings in a file with these bytes, if they make sense. -/
def load (bytes : List UInt8) : Except EngineError Settings := do
  match String.fromUTF8? (ByteArray.mk bytes.toArray) with
  | none => throw (.io "stream did not contain valid UTF-8")
  | some text =>
    let s ← parse text
    s.check
    return s

/-- The options that the settings stand for on a machine with this many hardware threads. -/
def options (s : Settings) (hardwareThreads : Nat) : EngineOptions where
  engine := s.engine
  ncpus := s.ncpus.getD hardwareThreads
  scheduler := s.scheduler
  policy := s.policy

end Settings

end VertexEngine
