import VertexEngine.Error

/-!
# Priorities

Two orders on doubles are in use.  Whether a repeated request raises the priority of a pending task
is decided by the numeric order, in which the two zeros are equal.  The place of a task in the queue
is decided by `rank`, a total order on all bit patterns that puts negative zero below zero.
-/

namespace VertexEngine.Priority

/-- The priority of a task for which none is given, or one that is not finite. -/
def default : Float := 1.0

/-- Refuses a priority that is not a finite number. -/
def check (p : Float) : Except EngineError Unit :=
  if p.isFinite then .ok () else .error (.invalidPriority p)

/-- The lowest bit pattern of a double with a sign. -/
def signBit : Nat := 0x8000000000000000

/-- The place of a double in the total order of its bit patterns: negative ones downward from
minus one, others upward from zero. -/
def rank (p : Float) : Int :=
  let bits := p.toBits.toNat
  if bits < signBit then bits else (signBit : Int) - 1 - bits

end VertexEngine.Priority
