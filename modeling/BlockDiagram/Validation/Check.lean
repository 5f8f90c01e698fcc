/-
Validating a graph.

Code can be generated from a graph with exactly one start block, no reference into the void or back
to where it came from, both arms on every conditional and a text wherever a statement needs one.
Unlike loading, validation does not stop at the first defect: it reports every one, in an order that
depends on the graph alone.
-/
import BlockDiagram.Text.Blank
import BlockDiagram.Validation.Cycle
import BlockDiagram.Validation.Reachable
import BlockDiagram.Validation.Violation

set_option autoImplicit false

namespace BlockDiagram

/-! ## The checks -/

/-- A finding at a block. -/
def Violation.at (id : BlockId) (defect : Defect) : Violation :=
  ⟨some id, defect⟩

/-- A finding about the whole graph. -/
def Violation.ofGraph (defect : Defect) : Violation :=
  ⟨none, defect⟩

namespace Graph

/-- There must be exactly one start block. Several make one finding. -/
def startViolations (graph : Graph) : List Violation :=
  match graph.starts with
  | [] => [.ofGraph .noStart]
  | [_] => []
  | ids => [.ofGraph (.multipleStarts ids)]

/-- Every reference must lead to a block, and none that the program can follow to a start block.
Blocks that cannot be reached are never generated, so they may refer to one. -/
def referenceViolations (graph : Graph) : List Violation :=
  let reachable := graph.reachable
  graph.edges.filterMap fun edge =>
    match graph.get? edge.target with
    | none => some (.at edge.source (.dangling edge.slot edge.target))
    | some found =>
      if found.isStart && reachable.contains edge.source then
        some (.at edge.source (.startReferenced edge.slot))
      else none

end Graph

/-- The arms that a block lacks. -/
def Block.missingArms (block : Block) : List Slot :=
  match block.kind with
  | .conditional _ ifTrue ifFalse =>
    (if ifTrue = .missing then [.ifTrue] else []) ++ if ifFalse = .missing then [.ifFalse] else []
  | _ => []

/-- The text that the statement of a kind cannot do without, and the name of its attribute. A code
block may be empty: it still makes a statement. -/
def BlockKind.requiredText? : BlockKind → Option (String × String)
  | .loop condition _ => some ("condition", condition)
  | .conditional condition _ _ => some ("condition", condition)
  | .read name _ => some ("variable", name)
  | .declare name => some ("name", name)
  | _ => none

namespace Graph

/-- Every conditional must have both arms. -/
def armViolations (graph : Graph) : List Violation :=
  graph.blocks.flatMap fun block => block.missingArms.map (.at block.id <| .missingArm ·)

/-- Every required text must hold more than blanks. -/
def attributeViolations (graph : Graph) : List Violation :=
  graph.blocks.filterMap fun block =>
    match block.kind.requiredText? with
    | some (name, text) =>
      if isBlankText text then some (.at block.id (.emptyAttribute name)) else none
    | none => none

/-- No block may lead back to itself. -/
def cycleViolations (graph : Graph) : List Violation :=
  graph.cycleEdges.map fun edge => .at edge.source (.cycle edge.slot edge.target)

/-- Every violation in a graph. -/
def violations (graph : Graph) : List Violation :=
  graph.startViolations ++ graph.referenceViolations ++ graph.armViolations ++
    graph.attributeViolations ++ graph.cycleViolations

end Graph

/-! ## Valid graphs -/

/-- A graph without violations, and the block where its program begins. -/
structure ValidGraph where
  graph : Graph
  entry : BlockId
  valid : graph.violations = []
  entry_eq : graph.entry? = some entry

/-- Validate a graph. A graph without violations has an entry, so the second case does not arise. -/
def Graph.validated (graph : Graph) : Except Report ValidGraph :=
  match valid : graph.violations, entry_eq : graph.entry? with
  | [], some entry => .ok ⟨graph, entry, valid, entry_eq⟩
  | [], none => .error ⟨[.ofGraph .noStart]⟩
  | violation :: violations, _ => .error ⟨violation :: violations⟩

end BlockDiagram
