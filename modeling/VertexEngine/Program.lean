import VertexEngine.Graph.Basic

/-!
# Vertex programs

A vertex program is a tree of questions to the engine.  Each `Action` is one visible step: reading
one value, writing the vertex's own value, one request to the scheduler, one look at the abort flag
or at a shared value.  The tree branches on the answer, and its leaves say how the program ends.
So programs do not depend on how an engine interleaves their steps, and every step of theirs can be
seen.

An update function is a name of type `F`.  What a name stands for is given by a `Behaviour`, so that
functions can be compared, and can schedule themselves and one another.
-/

namespace VertexEngine

/-- One visible step of a program.  Observations, of type `O`, are for the program's author; the
engine only keeps them in order. -/
inductive Action (F V O : Type) where
  /-- Read the value of any vertex. -/
  | read (v : VertexId)
  /-- Write the value of the vertex that the program runs on. -/
  | write (x : V)
  | schedule (v : VertexId) (update : F) (priority : Float)
  /-- Ask how many requests of this execution were accepted so far. -/
  | countScheduled
  /-- Ask whether an abort is requested. -/
  | pollAbort
  /-- Request an abort. -/
  | raiseAbort
  /-- Read the value that a sync published last. -/
  | readShared (sync : SyncId)
  | observe (o : O)

/-- The type of the answer to an action. -/
def Action.Answer {F V O : Type} (T : Type) : Action F V O → Type
  | read _ => Except EngineError V
  | write _ => Unit
  | schedule .. => Except EngineError Unit
  | countScheduled => Nat
  | pollAbort => Bool
  | raiseAbort => Unit
  | readShared _ => Except EngineError T
  | observe _ => Unit

/-- A program that ends with a value of type `α`, with an error, or with a panic.  What it does
depends on the answers that it gets and on nothing else. -/
inductive Program (F V T O : Type) (α : Type) where
  | done (a : α)
  | fail (e : EngineError)
  | panic
  | ask (action : Action F V O) (next : action.Answer T → Program F V T O α)

namespace Program

variable {F V T O α β : Type}

/-- The first program and then, if it ends with a value, the second. -/
def andThen (p : Program F V T O α) (f : α → Program F V T O β) : Program F V T O β :=
  match p with
  | done a => f a
  | fail e => fail e
  | panic => panic
  | ask action next => ask action fun answer => (next answer).andThen f

/-- The first program and then, if it ends with an error, the handler. -/
def orElse (p : Program F V T O α) (handler : EngineError → Program F V T O α) :
    Program F V T O α :=
  match p with
  | done a => done a
  | fail e => handler e
  | panic => panic
  | ask action next => ask action fun answer => (next answer).orElse handler

instance : Monad (Program F V T O) where
  pure := done
  bind := andThen

instance : MonadExceptOf EngineError (Program F V T O) where
  throw := fail
  tryCatch := orElse

/-- Asks a question and goes on with its answer. -/
def perform (action : Action F V O) : Program F V T O (action.Answer T) :=
  ask action done

/-- Ends with an error if the answer is one. -/
def ofExcept : Except EngineError α → Program F V T O α
  | .ok a => done a
  | .error e => fail e

def read (v : VertexId) : Program F V T O V :=
  ask (.read v) ofExcept

def write (x : V) : Program F V T O Unit :=
  perform (.write x)

def schedule (v : VertexId) (update : F) (priority : Float) : Program F V T O Unit :=
  ask (.schedule v update priority) ofExcept

def countScheduled : Program F V T O Nat :=
  perform .countScheduled

def pollAbort : Program F V T O Bool :=
  perform .pollAbort

def raiseAbort : Program F V T O Unit :=
  perform .raiseAbort

def readShared (sync : SyncId) : Program F V T O T :=
  ask (.readShared sync) ofExcept

def observe (o : O) : Program F V T O Unit :=
  perform (.observe o)

end Program

/-- What each update function does on each vertex of a graph.  State that a function has captured,
and that it would find changed when it is executed again, is not modelled. -/
abbrev Behaviour (F V E T O : Type) := F → Topology E → VertexId → Program F V T O Unit

end VertexEngine
