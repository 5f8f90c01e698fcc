/-
Kinds by tag, with default attributes.

An editor leaves out attributes that were never touched. A block then takes the defaults below:
empty texts, pin 0, the low level, no delay and no body. The arms of a conditional have no default;
they stay missing until they are sent, if only as empty.
-/
import BlockDiagram.Graph.Block

set_option autoImplicit false

namespace BlockDiagram

/-- The pin of a block that names none. -/
def defaultPin : Pin := 0

/-- The level of a write that names none. -/
def defaultLevel : PinLevel := .low

/-- The length of a sleep that names none. -/
def defaultLength : UInt64 := 0

/-- The kind with a tag, all attributes at their defaults. Two kinds have a second, longer tag. -/
def BlockKind.ofTag? : String → Option BlockKind
  | "start" => some .start
  | "loop" => some (.loop "" none)
  | "conditional" => some (.conditional "" .missing .missing)
  | "read" | "pin_read" => some (.read "" defaultPin)
  | "write" | "pin_write" => some (.write defaultPin defaultLevel)
  | "sleep" => some (.sleep defaultLength)
  | "code" => some (.code "")
  | "variable" => some (.declare "")
  | _ => none

end BlockDiagram
