import VertexEngine.Program

/-!
# Visits

The program that changes nothing and only tells that it ran.  The observations of a run of it are
the visited vertices, in the order of the visits.
-/

namespace VertexEngine

variable {F V T : Type}

/-- Tells that the vertex was visited. -/
def visit : Program F V T Unit Unit :=
  Program.observe ()

end VertexEngine
