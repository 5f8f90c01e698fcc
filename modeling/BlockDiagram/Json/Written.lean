/-
JSON as written.

A text spells out more than its value: members come in some order, and a name may come twice. The
type `Written` keeps all of that, and `Written.value` forgets it; of two members with one name the
later counts. Reading goes over the tokens once with a stack of the arrays and objects that are
still open. It never looks ahead and never goes back, so a text is read by a fold, and its
nesting is bounded by the height of the stack.
-/
import BlockDiagram.Json.Token
import BlockDiagram.Json.Value

set_option autoImplicit false

namespace BlockDiagram.Json

/-- A JSON text with its members in the order of writing, repetitions included. -/
inductive Written where
  | null
  | bool (value : Bool)
  | number (value : Number)
  | string (value : String)
  | array (items : List Written)
  | object (members : List (String × Written))

/-! ## What is meant -/

mutual

/-- The value that a text denotes. -/
def Written.value : Written → Value
  | .null => .null
  | .bool b => .bool b
  | .number n => .number n
  | .string s => .string s
  | .array items => .array (itemValues items)
  | .object members => .ofMembers (memberValues members)

/-- The values of items. -/
def itemValues : List Written → List Value
  | [] => []
  | item :: items => item.value :: itemValues items

/-- The values of members, in the order of writing. -/
def memberValues : List (String × Written) → List (String × Value)
  | [] => []
  | (name, written) :: members => (name, written.value) :: memberValues members

end

/-! ## Reading -/

/-- An array or object that is still open, with its parts so far, latest first. A member whose
value has not come yet is known by its name. -/
inductive Frame where
  | array (items : List Written)
  | object (members : List (String × Written))
  | member (members : List (String × Written)) (name : String)

/-- What may come next. -/
inductive Expected where
  /-- A value. -/
  | value
  /-- The first item of an array, or its end. -/
  | firstItem
  /-- The name of a member. -/
  | name
  /-- The name of the first member of an object, or its end. -/
  | firstName
  /-- The colon behind a name. -/
  | colon
  /-- A comma, or the end of the innermost array or object. -/
  | more
  /-- Nothing: the text is complete. -/
  | nothing (result : Written)

/-- The state of reading: the open arrays and objects, innermost first, and what may come next. -/
structure Reader where
  frames : List Frame
  expected : Expected

namespace Reader

/-- Arrays and objects may be nested to this depth. -/
def depthLimit : Nat := 127

/-- Before the first token. -/
def start : Reader := ⟨[], .value⟩

/-- Put a complete value where it belongs. -/
def supply (frames : List Frame) (value : Written) : Option Reader :=
  match frames with
  | [] => some ⟨[], .nothing value⟩
  | .array items :: frames => some ⟨.array (value :: items) :: frames, .more⟩
  | .member members name :: frames => some ⟨.object ((name, value) :: members) :: frames, .more⟩
  | .object _ :: _ => none

/-- Begin an array or an object. -/
def enter (frames : List Frame) (frame : Frame) (expected : Expected) : Option Reader :=
  if frames.length < depthLimit then some ⟨frame :: frames, expected⟩ else none

/-- Take a token where a value stands. -/
def takeValue (frames : List Frame) : Token → Option Reader
  | .null => supply frames .null
  | .bool b => supply frames (.bool b)
  | .number n => supply frames (.number n)
  | .string s => supply frames (.string s)
  | .openBracket => enter frames (.array []) .firstItem
  | .openBrace => enter frames (.object []) .firstName
  | _ => none

/-- Take a token where the innermost array or object may end or go on. -/
def takeMore (frames : List Frame) (token : Token) : Option Reader :=
  match frames, token with
  | .array items :: frames, .closeBracket => supply frames (.array items.reverse)
  | .object members :: frames, .closeBrace => supply frames (.object members.reverse)
  | .array _ :: _, .comma => some ⟨frames, .value⟩
  | .object _ :: _, .comma => some ⟨frames, .name⟩
  | _, _ => none

/-- Take a token where a name stands. -/
def takeName (frames : List Frame) (token : Token) : Option Reader :=
  match frames, token with
  | .object members :: frames, .string name => some ⟨.member members name :: frames, .colon⟩
  | _, _ => none

/-- Take the next token. -/
def take (reader : Reader) (token : Token) : Option Reader :=
  let frames := reader.frames
  match reader.expected with
  | .value => takeValue frames token
  | .firstItem => if token = .closeBracket then takeMore frames token else takeValue frames token
  | .name => takeName frames token
  | .firstName => if token = .closeBrace then takeMore frames token else takeName frames token
  | .colon => if token = .colon then some ⟨frames, .value⟩ else none
  | .more => takeMore frames token
  | .nothing _ => none

/-- The result at the end of the text. -/
def result? (reader : Reader) : Option Written :=
  match reader.expected with
  | .nothing result => some result
  | _ => none

end Reader

/-- Read a text; nothing if it is not JSON. -/
def Written.read? (text : String) : Option Written := do
  (← (← tokens text).foldlM Reader.take Reader.start).result?

/-- The value that a text denotes; nothing if it is not JSON. -/
def Value.read? (text : String) : Option Value :=
  (Written.read? text).map Written.value

end BlockDiagram.Json
