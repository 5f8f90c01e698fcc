/-
The journal of validating and compiling.

Validation tells each reference that closes a cycle when the search finds it, and all violations at
the end. Emission tells each block that it meets. Compiling tells the phases that these belong to.
-/
import BlockDiagram.Compilation
import BlockDiagram.Journal.Loading

set_option autoImplicit false

namespace BlockDiagram.Journal

/-! ## Validation -/

/-- The name of validation. -/
private def validator : String := "VALIDATOR"

/-- The journal of validating a graph. -/
def validation (graph : Graph) : List Entry :=
  let violations := graph.violations
  [info validator ("Checking " ++ decimal graph.size ++ " blocks")] ++
    (graph.cycleEdges.map fun edge =>
      debug validator ("Cycle through " ++ idText edge.source ++ " -> " ++ idText edge.target)) ++
    (violations.map fun violation => warn validator violation.message) ++
    [info validator (decimal violations.length ++ " violation(s) found")]

/-! ## Emission -/

/-- The name of emission. -/
private def emitter : String := "CODEGEN"

/-- The entry on a block that emission meets. -/
def meeting (graph : Graph) (visit : Visit) : Entry :=
  let tag := ((graph.get? visit.id).map (·.kind.tag)).getD ""
  debug emitter ("Block " ++ idText visit.id ++ " (" ++ tag ++ ") at level " ++
    decimal visit.level)

/-- The journal of emitting the program of a valid graph. -/
def emission (valid : ValidGraph) (width : UInt64) : List Entry :=
  info emitter ("Generating program from start block " ++ idText valid.entry) ::
    valid.visits.map (meeting valid.graph) ++
      [info emitter ("Generated " ++ size (valid.program width))]

/-! ## Compilation -/

/-- The name of compilation. -/
private def compiler : String := "BDGC"

/-- The journal of compiling a graph. -/
def compilation (graph : Graph) (width : UInt64) : List Entry :=
  [info compiler ("Starting block diagram compilation (" ++ decimal graph.size ++ " blocks)"),
    info compiler "Phase 1: Validating graph..."] ++ validation graph ++
    match graph.validated with
    | .error _ => []
    | .ok valid =>
      [info compiler ("Entry block: " ++ idText valid.entry),
        info compiler "Phase 2: Generating Arduino C..."] ++ emission valid width ++
        [info compiler ("Compilation successful (" ++ size (valid.program width) ++ ")")]

/-- The journal of compiling what was loaded, given the journal of loading it. -/
def compilationOf (told : List Entry) (loaded : Except LoadError Graph) (width : UInt64) :
    List Entry :=
  info compiler "Phase 0: Loading block description..." :: told ++
    match loaded with
    | .ok graph => compilation graph width
    | .error _ => []

/-- The journal of compiling a text. -/
def compilationOfText (text : String) (width : UInt64) : List Entry :=
  compilationOf (loadingOfText text) (Graph.ofText text) width

/-- The journal of compiling a file. -/
def compilationOfFile (files : Files) (path : String) (width : UInt64) : List Entry :=
  compilationOf (loadingOfFile files path) (Graph.ofFile files path) width

end BlockDiagram.Journal
