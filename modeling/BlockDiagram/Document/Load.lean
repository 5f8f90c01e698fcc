/-
Loading a document.

A document describes its blocks in one object, keyed by id. Loading goes over it three times, since
a block may refer to one that is described later: first the keys, in the order of the document,
give the table of descriptions; then every description becomes a block, in ascending order of id;
last every reference is looked up in the finished graph. The first defect met is the one reported.
-/
import BlockDiagram.Document.Attribute
import BlockDiagram.Graph.Basic
import BlockDiagram.Json.Written

set_option autoImplicit false

namespace BlockDiagram

open Json (Value)

/-! ## Descriptions -/

/-- The description of one block: those members of its object that matter. A type or attributes
given as null count as not given, but a `next` of null says that nothing follows. -/
structure Description where
  id : BlockId
  type : Option Value
  next : Option Value
  attributes : Option Value

/-- A value that is not null. -/
def Json.Value.given? : Value → Option Value
  | .null => none
  | value => some value

/-- The description that an object gives. -/
def Description.ofObject (id : BlockId) (members : Json.Object) : Description where
  id := id
  type := (members.get? "type").bind Value.given?
  next := members.get? "next"
  attributes := (members.get? "attributes").bind Value.given?

/-- The id that a key denotes. -/
def blockId? (key : String) : Option BlockId :=
  match numeral? key with
  | some n => if n < UInt32.size then some (UInt32.ofNat n) else none
  | none => none

/-- Add one member of the block object to the table of descriptions. -/
def addDescription (table : List Description) (entry : String × Value) :
    Except LoadError (List Description) :=
  match blockId? entry.1, entry.2 with
  | none, _ => .error (.badKey entry.1)
  | some id, .object members =>
    if (findById Description.id id table).isSome then .error (.duplicateId id)
    else .ok (insertById Description.id (.ofObject id members) table)
  | some id, _ => .error (.noDescription id)

/-- The object that holds the blocks. -/
def blockObject (document : Value) : Except LoadError Json.Object :=
  match document with
  | .object members =>
    match (members.get? "blocks").bind Value.given? with
    | none => .error .noBlocks
    | some (.object blocks) => .ok blocks
    | some _ => .error .noBlockTable
  | _ => .error .noObject

/-- The descriptions of a document in ascending order of id. -/
def descriptions (document : Value) : Except LoadError (List Description) := do
  (← blockObject document).toList.foldlM addDescription []

/-! ## Blocks -/

/-- The kind that a description names, with default attributes. -/
def Description.kind (d : Description) : Except LoadError BlockKind :=
  match d.type with
  | none => .error (.unknownType d.id none)
  | some (.string tag) =>
    match BlockKind.ofTag? tag with
    | some kind => .ok kind
    | none => .error (.unknownType d.id (some tag))
  | some other => .error (.unknownType d.id (some other.text))

/-- Attribute a fault to an attribute of a block. -/
def blame {α : Type} (id : BlockId) (name : String) (result : Except AttributeFault α) :
    Except LoadError α :=
  result.mapError (.badAttribute id name)

/-- Where a description says that control goes next. -/
def Description.nextLink (d : Description) : Except LoadError (Option BlockId) :=
  match d.next with
  | none => .error (.missingNext d.id)
  | some value => blame d.id "next" (readLink value)

/-- The attributes of a description. -/
def Description.attributeObject (d : Description) : Except LoadError Json.Object :=
  match d.attributes with
  | none => .ok .nil
  | some (.object attributes) => .ok attributes
  | some other => blame d.id "attributes" (.error (.noAttributes other))

/-- A conditional with the arms that its attributes give. Other kinds have none. -/
def withArms (id : BlockId) (attributes : Json.Object) (kind : BlockKind) :
    Except LoadError BlockKind :=
  match kind, attributes.get? "children" with
  | .conditional condition _ _, some (.object arms) => do
    let ifTrue ← blame id "children.true" (readArm (arms.get? "true"))
    let ifFalse ← blame id "children.false" (readArm (arms.get? "false"))
    return .conditional condition ifTrue ifFalse
  | .conditional .., some _ => blame id "children" (.error .noArms)
  | kind, _ => .ok kind

/-- Apply one attribute: set it if the kind knows it, keep it aside if not. -/
def applyAttribute (id : BlockId) (state : BlockKind × Json.Object) (entry : String × Value) :
    Except LoadError (BlockKind × Json.Object) :=
  match state.1.set? entry.1 entry.2 with
  | some result => (blame id entry.1 result).map (·, state.2)
  | none => .ok (state.1, state.2.insert entry.1 entry.2)

/-- The block that a description describes. -/
def Description.block (d : Description) : Except LoadError Block := do
  let kind ← d.kind
  let next ← d.nextLink
  let attributes ← d.attributeObject
  let kind ← withArms d.id attributes kind
  let (kind, extra) ← attributes.toList.foldlM (applyAttribute d.id) (kind, .nil)
  return ⟨d.id, next, kind, extra⟩

/-! ## Graphs -/

/-- A graph whose references all name one of its blocks. -/
def resolved (graph : Graph) : Except LoadError Graph :=
  match graph.edges.find? fun edge => !graph.contains edge.target with
  | some edge => .error (.dangling edge.source edge.slot edge.target)
  | none => .ok graph

/-- The graph that a document describes. -/
def Graph.ofDocument (document : Value) : Except LoadError Graph := do
  let table ← descriptions document
  let blocks ← table.mapM Description.block
  resolved (.ofList blocks)

/-- The graph that a text describes. -/
def Graph.ofText (text : String) : Except LoadError Graph :=
  match Value.read? text with
  | some document => ofDocument document
  | none => .error .notJson

/-- The graph that a file describes. -/
def Graph.ofFile (files : Files) (path : String) : Except LoadError Graph :=
  match files.readText path with
  | .ok text => ofText text
  | .error error => .error (.unreadable error)

end BlockDiagram
