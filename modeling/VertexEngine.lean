import VertexEngine.Graph.Plan
import VertexEngine.Main
import VertexEngine.Programs.Visit
import VertexEngine.Proofs.Application.Answer
import VertexEngine.Proofs.Core.Abort
import VertexEngine.Proofs.Core.Editions
import VertexEngine.Proofs.Core.Refusal
import VertexEngine.Proofs.Graph.Concatenation
import VertexEngine.Proofs.Local.OrderIndependence
import VertexEngine.Proofs.Queue.Invariant
import VertexEngine.Proofs.Queue.Replacement
import VertexEngine.Proofs.Queue.Seniority
import VertexEngine.Proofs.ShortestPath.Incremental
import VertexEngine.Proofs.ShortestPath.Termination
import VertexEngine.Queue.Pending
import VertexEngine.Script.Statement
