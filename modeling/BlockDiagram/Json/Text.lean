/-
The compact text of a JSON value.

There is one text for each value: no blanks between tokens, members in ascending order of name,
and in strings only those escapes that the format demands. Everything else, the delete character
and all characters outside ASCII among it, is written as it is.
-/
import BlockDiagram.Json.Value

set_option autoImplicit false

namespace BlockDiagram.Json

/-! ## Strings -/

/-- Two hexadecimal digits. -/
def hexPair (n : Nat) : String :=
  String.ofList [Nat.digitChar (n / 16), Nat.digitChar (n % 16)]

/-- One character of a string literal. Line breaks and the like have escapes of one letter. -/
def escapeChar (c : Char) : String :=
  match c with
  | '"' => "\\\""
  | '\\' => "\\\\"
  | '\x08' => "\\b"
  | '\t' => "\\t"
  | '\n' => "\\n"
  | '\x0c' => "\\f"
  | '\r' => "\\r"
  | _ => if c.toNat < 0x20 then "\\u00" ++ hexPair c.toNat else c.toString

/-- A string literal. -/
def stringText (s : String) : String :=
  "\"" ++ String.join (s.toList.map escapeChar) ++ "\""

/-! ## Values -/

mutual

/-- The text of a value. -/
def Value.text : Value → String
  | .null => "null"
  | .bool true => "true"
  | .bool false => "false"
  | .number n => n.text
  | .string s => stringText s
  | .array [] => "[]"
  | .array (item :: items) => "[" ++ item.text ++ moreItems items ++ "]"
  | .object .nil => "\x7b\x7d"
  | .object (.cons name _ value rest) =>
    "\x7b" ++ stringText name ++ ":" ++ value.text ++ rest.moreMembers ++ "\x7d"

/-- The text of the items after the first. -/
def moreItems : List Value → String
  | [] => ""
  | item :: items => "," ++ item.text ++ moreItems items

/-- The text of the members after the first. -/
def Members.moreMembers {bound : Option String} : Members bound → String
  | .nil => ""
  | .cons name _ value rest =>
    "," ++ stringText name ++ ":" ++ value.text ++ rest.moreMembers

end

end BlockDiagram.Json
