/-
Fragments of a program.

A program is written fragment by fragment. A fragment is a whole statement, or what a compound
statement needs around its bodies: a head and a tail, and between the arms of a conditional a
bridge. All lines that a fragment has of its own begin with the indentation of the place where it
stands; a text that came from the diagram goes out as it is. The wording is fixed by the boards that
run the programs and by their build tools.
-/
import BlockDiagram.Graph.Block

set_option autoImplicit false

namespace BlockDiagram

/-- A fragment of a program. -/
inductive Fragment where
  /-- Up to the body of a program. -/
  | programHead
  /-- Behind the body of a program. -/
  | programTail
  /-- Up to the body of a loop. -/
  | loopHead (condition : String)
  /-- Up to the first arm of a conditional. -/
  | armsHead (condition : String)
  /-- From the first arm of a conditional to the second. -/
  | armsBridge
  /-- Behind the last body of a loop or a conditional. -/
  | bodyTail
  /-- Between two statements. -/
  | lineBreak
  /-- Sets the level of a pin. -/
  | setPin (pin : Pin) (level : PinLevel)
  /-- Stores the level of a pin. -/
  | readPin (name : String) (pin : Pin)
  /-- Waits. -/
  | wait (length : UInt64)
  /-- A statement given as text. -/
  | verbatim (text : String)
  /-- Declares an integer. -/
  | integer (name : String)
  deriving DecidableEq, Repr

/-- The text of a fragment, given the indentation of the place where it stands. -/
def Fragment.text (indent : String) : Fragment → String
  | .programHead =>
    indent ++ "void setup() \x7b pinMode(12, OUTPUT); \x7d\n" ++
      indent ++ "void loop()\n" ++
      indent ++ "\x7b\n"
  | .programTail => "\n" ++ indent ++ "\x7d\n"
  | .loopHead condition => indent ++ "while (" ++ condition ++ ")\n" ++ indent ++ "\x7b\n"
  | .armsHead condition => indent ++ "if (" ++ condition ++ ")\n" ++ indent ++ "\x7b\n"
  | .armsBridge => "\n" ++ indent ++ "\x7d\n" ++ indent ++ "else\n" ++ indent ++ "\x7b\n"
  | .bodyTail => "\n" ++ indent ++ "\x7d"
  | .lineBreak => "\n"
  | .setPin pin level =>
    indent ++ "digitalWrite(" ++ decimal pin.toNat ++ "," ++ decimal level.number ++ ");"
  | .readPin name pin => indent ++ name ++ " = digitalRead(" ++ decimal pin.toNat ++ ");"
  | .wait length => indent ++ "delay(" ++ decimal length.toNat ++ ");"
  | .verbatim text => indent ++ text ++ ";"
  | .integer name => indent ++ "int " ++ name ++ " = 0;"

/-- Spaces for each level of nesting where nothing else is asked for. -/
def defaultIndentWidth : UInt64 := 2

/-- The indentation of a level of nesting. -/
def indentation (width : UInt64) (level : Nat) : String :=
  String.ofList (List.replicate (width.toNat * level) ' ')

/-- A fragment at a level of nesting. -/
structure Placed where
  fragment : Fragment
  level : Nat
  deriving DecidableEq, Repr

/-- The text of a fragment where it stands. -/
def Placed.text (width : UInt64) (placed : Placed) : String :=
  placed.fragment.text (indentation width placed.level)

end BlockDiagram
