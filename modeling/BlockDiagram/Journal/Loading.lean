/-
The journal of loading.

Loading tells how many blocks are described, which attributes are kept aside because their block has
no use for them, and which blocks are finished. It falls silent at the first defect.
-/
import BlockDiagram.Document.Load
import BlockDiagram.Journal.Entry

set_option autoImplicit false

namespace BlockDiagram.Journal

open Json (Value)

/-- The name of this part of the work. -/
private def loader : String := "LOADER"

/-! ## Blocks -/

/-- Entries on the attributes of a block, up to one with an unusable value. -/
def attributes (id : BlockId) (kind : BlockKind) : List (String × Value) → List Entry
  | [] => []
  | (name, value) :: rest =>
    match kind.set? name value with
    | none =>
      warn loader ("Block " ++ idText id ++ " (" ++ kind.tag ++
        "): keeping unrecognized attribute '" ++ name ++ "'") :: attributes id kind rest
    | some (.ok kind) => attributes id kind rest
    | some (.error _) => []

/-- Entries on a description, if it is in order up to its attributes. -/
def description (d : Description) : List Entry :=
  let start : Except LoadError (BlockKind × Json.Object) := do
    let kind ← d.kind
    discard d.nextLink
    let object ← d.attributeObject
    return (← withArms d.id object kind, object)
  match start with
  | .ok (kind, object) => attributes d.id kind object.toList
  | .error _ => []

/-- Entries on the blocks of a table of descriptions, up to the first defect. -/
def blocks : List Description → List Entry
  | [] => []
  | d :: rest =>
    description d ++
      match d.block with
      | .ok block =>
        debug loader ("Built block " ++ idText block.id ++ " (" ++ block.kind.tag ++ ")") ::
          blocks rest
      | .error _ => []

/-! ## Documents -/

/-- The journal of loading a document. -/
def loading (document : Value) : List Entry :=
  match descriptions document with
  | .error _ => []
  | .ok table =>
    info loader ("Found " ++ decimal table.length ++ " block descriptors") :: blocks table ++
      match Graph.ofDocument document with
      | .ok graph => [info loader ("Loaded " ++ decimal graph.size ++ " blocks")]
      | .error _ => []

/-- The journal of loading a text. -/
def loadingOfText (text : String) : List Entry :=
  match Value.read? text with
  | some document => loading document
  | none => []

/-- The journal of loading a file. -/
def loadingOfFile (files : Files) (path : String) : List Entry :=
  info loader ("Reading " ++ path) ::
    match files.readText path with
    | .ok text => loadingOfText text
    | .error _ => []

end BlockDiagram.Journal
