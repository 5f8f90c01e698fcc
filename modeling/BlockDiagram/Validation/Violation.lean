/-
Findings about a graph.

A violation names the block that it was found at, if there is one, and says what is wrong. A report
lists all violations of a graph, one to a line below a line with their number.
-/
import BlockDiagram.Graph.Block

set_option autoImplicit false

namespace BlockDiagram

/-! ## Violations -/

/-- What is wrong. -/
inductive Defect where
  /-- No block marks where the program begins. -/
  | noStart
  /-- Several blocks do. -/
  | multipleStarts (ids : List BlockId)
  /-- A reference leads to no block. -/
  | dangling (slot : Slot) (target : BlockId)
  /-- A conditional lacks an arm. -/
  | missingArm (arm : Slot)
  /-- A reference leads back to a block that it was reached from. -/
  | cycle (slot : Slot) (target : BlockId)
  /-- A reference leads to where the program begins. -/
  | startReferenced (slot : Slot)
  /-- A text that the generated statement needs is blank. -/
  | emptyAttribute (name : String)
  deriving DecidableEq, Repr

/-- A finding, at a block or about the graph as a whole. -/
structure Violation where
  block : Option BlockId
  defect : Defect
  deriving DecidableEq, Repr

/-- Ids in a row. -/
def idList (ids : List BlockId) : String :=
  ", ".intercalate (ids.map idText)

/-- A name between apostrophes. -/
def apostrophed (name : String) : String :=
  "'" ++ name ++ "'"

/-- The wording of what is wrong. -/
def Defect.message : Defect → String
  | .noStart => "graph has no start block"
  | .multipleStarts ids =>
    "graph has " ++ decimal ids.length ++ " start blocks (" ++ idList ids ++
      "), expected exactly one"
  | .dangling slot target => apostrophed slot.name ++ " refers to missing block " ++ idText target
  | .missingArm arm => "conditional is missing its " ++ apostrophed arm.name ++ " branch"
  | .cycle slot target =>
    apostrophed slot.name ++ " to block " ++ idText target ++ " closes a reference cycle"
  | .startReferenced slot => apostrophed slot.name ++ " refers to the start block"
  | .emptyAttribute name => "required attribute " ++ apostrophed name ++ " is empty"

/-- The wording of a finding. -/
def Violation.message (violation : Violation) : String :=
  match violation.block with
  | some id => "block " ++ idText id ++ ": " ++ violation.defect.message
  | none => violation.defect.message

/-! ## Reports -/

/-- Everything that is wrong with a graph. -/
structure Report where
  violations : List Violation
  deriving DecidableEq, Repr

/-- The line of a report for one finding, with the line break before it. -/
def Violation.reportLine (violation : Violation) : String :=
  "\n  - " ++ violation.message

/-- The wording of a report. -/
def Report.message (report : Report) : String :=
  decimal report.violations.length ++ " validation error(s)" ++
    String.join (report.violations.map Violation.reportLine)

end BlockDiagram
