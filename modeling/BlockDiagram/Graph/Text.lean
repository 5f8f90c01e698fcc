/-
The JSON text of a graph.

A graph is written as one object with a member for each block, in ascending order of id. Inside a
block the fields stand in a fixed order and not by name: id, `next`, the tag, the fields of the
kind, and last the attributes that the kind has no use for, if there are any.
-/
import BlockDiagram.Graph.Basic
import BlockDiagram.Json.Text

set_option autoImplicit false

namespace BlockDiagram

open Json (stringText)

/-! ## Fields -/

/-- A member with its value already in text form. -/
def fieldText (field : String × String) : String :=
  stringText field.1 ++ ":" ++ field.2

/-- An object with its members in the order given. -/
def objectText (fields : List (String × String)) : String :=
  "\x7b" ++ ",".intercalate (fields.map fieldText) ++ "\x7d"

/-- The text of an optional id. -/
def optionalIdText : Option BlockId → String
  | some id => idText id
  | none => "null"

/-- The text of an arm. -/
def Arm.text : Arm → String
  | .missing => stringText "missing"
  | .empty => stringText "empty"
  | .to target => objectText [("to", idText target)]

/-- The fields of a kind. -/
def BlockKind.fields : BlockKind → List (String × String)
  | .start => []
  | .loop condition child =>
    [("condition", stringText condition), ("child", optionalIdText child)]
  | .conditional condition ifTrue ifFalse =>
    [("condition", stringText condition), ("if_true", ifTrue.text), ("if_false", ifFalse.text)]
  | .read name pin => [("variable", stringText name), ("pin", decimal pin.toNat)]
  | .write pin level => [("pin", decimal pin.toNat), ("value", stringText level.word)]
  | .sleep length => [("length", decimal length.toNat)]
  | .code text => [("code", stringText text)]
  | .declare name => [("name", stringText name)]

/-! ## Blocks and graphs -/

/-- The text of a block. -/
def Block.text (block : Block) : String :=
  objectText <|
    [("id", idText block.id), ("next", optionalIdText block.next),
      ("type", stringText block.kind.tag)] ++ block.kind.fields ++
    if block.extra.isEmpty then [] else [("extra", (Json.Value.object block.extra).text)]

/-- The text of a graph. -/
def Graph.text (graph : Graph) : String :=
  objectText [("blocks", objectText (graph.blocks.map fun b => (idText b.id, b.text)))]

end BlockDiagram
