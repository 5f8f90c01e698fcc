/-
Blocks of a diagram.

A diagram is a set of blocks that name each other by id. What a block does is its kind; where
control goes next is its `next` link, which every kind has. Loops and conditionals name further
blocks as the beginnings of their bodies. No block contains another one, so a body may be shared,
may be missing, and may even lead back to where it came from; whether such a diagram makes sense is
judged elsewhere.
-/
import BlockDiagram.Json.Value

set_option autoImplicit false

namespace BlockDiagram

/-! ## Parts of a block -/

/-- The id of a block, unique within a diagram. -/
abbrev BlockId := UInt32

/-- The text of an id. -/
def idText (id : BlockId) : String :=
  decimal id.toNat

/-- The number of a digital pin. -/
abbrev Pin := UInt32

/-- The logical level of a digital pin. -/
inductive PinLevel where
  | low
  | high
  deriving DecidableEq, Repr

/-- The level as the number that a pin is written with. -/
def PinLevel.number : PinLevel → Nat
  | .low => 0
  | .high => 1

/-- The word for a level. -/
def PinLevel.word : PinLevel → String
  | .low => "low"
  | .high => "high"

/-- One arm of a conditional. An arm that the editor never sent is kept apart from one that it
sent empty: the first is a defect, the second a conditional that does nothing there. -/
inductive Arm where
  | missing
  | empty
  | to (target : BlockId)
  deriving DecidableEq, Repr

/-- The block that an arm begins with. -/
def Arm.target? : Arm → Option BlockId
  | .to target => some target
  | _ => none

/-- The place in a block where a reference is kept. -/
inductive Slot where
  | next
  | child
  | ifTrue
  | ifFalse
  deriving DecidableEq, Repr

/-- The name of a place in messages: the path of the attribute that fills it. -/
def Slot.name : Slot → String
  | .next => "next"
  | .child => "child"
  | .ifTrue => "children.true"
  | .ifFalse => "children.false"

/-! ## Blocks -/

/-- What a block does. -/
inductive BlockKind where
  /-- Marks where the program begins; its `next` link leads to the program's body. -/
  | start
  /-- Repeats a body while a condition holds. -/
  | loop (condition : String) (child : Option BlockId)
  /-- Takes one of two arms. -/
  | conditional (condition : String) (ifTrue ifFalse : Arm)
  /-- Stores the level of a pin. -/
  | read (name : String) (pin : Pin)
  /-- Sets the level of a pin. -/
  | write (pin : Pin) (level : PinLevel)
  /-- Waits for a number of milliseconds. -/
  | sleep (length : UInt64)
  /-- Runs a statement given as text. -/
  | code (text : String)
  /-- Declares an integer. -/
  | declare (name : String)
  deriving DecidableEq, Repr

/-- The tag of a kind in documents and messages. -/
def BlockKind.tag : BlockKind → String
  | .start => "start"
  | .loop .. => "loop"
  | .conditional .. => "conditional"
  | .read .. => "read"
  | .write .. => "write"
  | .sleep .. => "sleep"
  | .code .. => "code"
  | .declare .. => "variable"

/-- A block. Attributes that its kind has no use for are kept as they were sent. -/
structure Block where
  id : BlockId
  next : Option BlockId
  kind : BlockKind
  extra : Json.Object

namespace Block

/-- Whether the block marks the beginning of the program. -/
def isStart (block : Block) : Bool :=
  match block.kind with
  | .start => true
  | _ => false

/-- The reference in a slot, if the slot is filled. -/
def reference? (slot : Slot) (target : Option BlockId) : List (Slot × BlockId) :=
  (target.map (slot, ·)).toList

/-- The references of a block, `next` before those of its kind. -/
def references (block : Block) : List (Slot × BlockId) :=
  reference? .next block.next ++
    match block.kind with
    | .loop _ child => reference? .child child
    | .conditional _ ifTrue ifFalse =>
      reference? .ifTrue ifTrue.target? ++ reference? .ifFalse ifFalse.target?
    | _ => []

end Block

end BlockDiagram
