/-
From a document to a program.

Compiling loads a document, validates the graph and emits the program. It fails either because the
document does not load, with the first defect met, or because the graph is not valid, with a report
of everything that is wrong.
-/
import BlockDiagram.Document.Load
import BlockDiagram.Program.Emission

set_option autoImplicit false

namespace BlockDiagram

/-- Why there is no program. -/
inductive CompileError where
  | load (error : LoadError)
  | invalid (report : Report)

/-- The wording of a compile error. -/
def CompileError.message : CompileError → String
  | .load error => error.message
  | .invalid report => "invalid block graph: " ++ report.message

namespace Program

/-- The program of a graph. -/
def ofGraph (graph : Graph) (width : UInt64) : Except CompileError String :=
  match graph.validated with
  | .ok valid => .ok (valid.program width)
  | .error report => .error (.invalid report)

/-- The program of a graph that was loaded, or not. -/
def ofLoaded (loaded : Except LoadError Graph) (width : UInt64) : Except CompileError String :=
  match loaded with
  | .ok graph => ofGraph graph width
  | .error error => .error (.load error)

/-- The program of the document in a text. -/
def ofText (text : String) (width : UInt64) : Except CompileError String :=
  ofLoaded (Graph.ofText text) width

/-- The program of the document in a file. -/
def ofFile (files : Files) (path : String) (width : UInt64) : Except CompileError String :=
  ofLoaded (Graph.ofFile files path) width

end Program

end BlockDiagram
