/-
Why a document does not describe a graph.

Each cause carries what its message needs and no wording; the wording is in `message`. An attribute
is at fault for a reason of its own, which shows the value found there.
-/
import BlockDiagram.Files.Tree
import BlockDiagram.Graph.Block
import BlockDiagram.Json.Text
import BlockDiagram.Text.Quoted

set_option autoImplicit false

namespace BlockDiagram

/-! ## Attributes -/

/-- What is wrong with the value of an attribute. -/
inductive AttributeFault where
  /-- A number, but not a natural one below 2^64. -/
  | notNatural (found : Json.Number)
  /-- A text that is no numeral below 2^64. -/
  | notNumeral (found : String)
  /-- Neither a number nor a text where a number is needed. -/
  | noNumber (found : Json.Value)
  /-- A number that no block id can have. -/
  | idOutOfRange (found : UInt64)
  /-- A number that no pin can have. -/
  | pinOutOfRange (found : UInt64)
  /-- No level of a pin. -/
  | noLevel (found : Json.Value)
  /-- No text where text is needed. -/
  | noText (found : Json.Value)
  /-- No object where the attributes of a block are needed. -/
  | noAttributes (found : Json.Value)
  /-- No object where the arms of a conditional are needed. -/
  | noArms

/-- The wording of a fault. -/
def AttributeFault.message : AttributeFault → String
  | .notNatural found => found.text ++ " is not a non-negative integer"
  | .notNumeral found => quoted found ++ " is not a non-negative integer"
  | .noNumber found => "expected a non-negative integer, found " ++ found.text
  | .idOutOfRange found => decimal found.toNat ++ " is out of range for a block id"
  | .pinOutOfRange found => decimal found.toNat ++ " is out of range"
  | .noLevel found => found.text ++ " is not a pin level (0/1, low/high)"
  | .noText found => "expected text, found " ++ found.text
  | .noAttributes found => "must be an object, found " ++ found.text
  | .noArms => "must be an object with 'true' and 'false' keys"

/-! ## Documents -/

/-- Why a document does not load. -/
inductive LoadError where
  /-- The file of the document cannot be read. -/
  | unreadable (error : FileError)
  /-- The text is not JSON. -/
  | notJson
  /-- The document is not an object. -/
  | noObject
  /-- The document has no blocks. -/
  | noBlocks
  /-- The blocks are not an object. -/
  | noBlockTable
  /-- The description of a block is not an object. -/
  | noDescription (id : BlockId)
  /-- The key of a block is not an id. -/
  | badKey (key : String)
  /-- Two keys denote the same id. -/
  | duplicateId (id : BlockId)
  /-- A block has no type, or one that is unknown. -/
  | unknownType (id : BlockId) (tag : Option String)
  /-- A block does not say what comes next, not even that nothing does. -/
  | missingNext (id : BlockId)
  /-- An attribute of a block has an unusable value. -/
  | badAttribute (id : BlockId) (name : String) (fault : AttributeFault)
  /-- A block refers to a block that the document does not describe. -/
  | dangling (id : BlockId) (slot : Slot) (target : BlockId)

/-- The wording of a load error. What the file system or the JSON reader has to say would follow. -/
def LoadError.message : LoadError → String
  | .unreadable error => "failed to read " ++ error.path ++ ": "
  | .notJson => "invalid JSON: "
  | .noObject => "malformed input: top-level document must be an object"
  | .noBlocks => "malformed input: no \"blocks\" object"
  | .noBlockTable => "malformed input: \"blocks\" must be an object keyed by block id"
  | .noDescription id => "malformed input: block " ++ idText id ++ " must be an object"
  | .badKey key => "block key " ++ quoted key ++ " is not a non-negative integer id"
  | .duplicateId id => "block id " ++ idText id ++ " appears more than once"
  | .unknownType id tag =>
    "block " ++ idText id ++ " has unknown type " ++ (tag.map quoted).getD "(missing)"
  | .missingNext id => "block " ++ idText id ++ " is missing required field 'next'"
  | .badAttribute id name fault =>
    "block " ++ idText id ++ " has invalid attribute '" ++ name ++ "': " ++ fault.message
  | .dangling id slot target =>
    "block " ++ idText id ++ " refers to missing block " ++ idText target ++
      " through '" ++ slot.name ++ "'"

end BlockDiagram
