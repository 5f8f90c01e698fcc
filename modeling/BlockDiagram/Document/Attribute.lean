/-
Values of attributes.

Editors are not consistent in how they send a value: numbers come as numbers or as text, levels as
truth values, numbers or words, and an attribute that was cleared comes as null. Each reading below
accepts every form that is used for its kind of value and says what is wrong with any other. Null
stands for the default, except in a link, where it means that nothing follows.
-/
import BlockDiagram.Document.Error
import BlockDiagram.Graph.Tag

set_option autoImplicit false

namespace BlockDiagram

open Json (Value)

/-! ## Numbers and ids -/

/-- A natural number below 2^64, as a number or as a numeral. -/
def readNatural : Value → Except AttributeFault UInt64
  | .number n =>
    match n.natural? with
    | some n => .ok n
    | none => .error (.notNatural n)
  | .string s =>
    match numeral? s with
    | some n => if n < UInt64.size then .ok (UInt64.ofNat n) else .error (.notNumeral s)
    | none => .error (.notNumeral s)
  | other => .error (.noNumber other)

/-- The id of a block. -/
def readId (value : Value) : Except AttributeFault BlockId := do
  let n ← readNatural value
  if n.toNat < UInt32.size then .ok n.toUInt32 else .error (.idOutOfRange n)

/-- A link to a block, or null for none. -/
def readLink : Value → Except AttributeFault (Option BlockId)
  | .null => .ok none
  | value => (readId value).map some

/-- An arm of a conditional; one that was not sent is missing. -/
def readArm : Option Value → Except AttributeFault Arm
  | none => .ok .missing
  | some value => (readLink value).map fun
    | none => .empty
    | some target => .to target

/-- The number of a pin. -/
def readPin : Value → Except AttributeFault Pin
  | .null => .ok defaultPin
  | value => do
    let n ← readNatural value
    if n.toNat < UInt32.size then .ok n.toUInt32 else .error (.pinOutOfRange n)

/-- The length of a sleep. -/
def readLength : Value → Except AttributeFault UInt64
  | .null => .ok defaultLength
  | value => readNatural value

/-! ## Levels and texts -/

/-- The level that a word denotes, in capitals or not. -/
def levelOfWord? (s : String) : Option PinLevel :=
  match String.ofList ((trimChars s.toList).map Char.toLower) with
  | "low" | "0" => some .low
  | "high" | "1" => some .high
  | _ => none

/-- The level that a value denotes. -/
def level? : Value → Option PinLevel
  | .null => some defaultLevel
  | .bool true => some .high
  | .bool false => some .low
  | .number n =>
    match n.natural? with
    | some 0 => some .low
    | some 1 => some .high
    | _ => none
  | .string s => levelOfWord? s
  | _ => none

/-- The level of a pin. -/
def readLevel (value : Value) : Except AttributeFault PinLevel :=
  match level? value with
  | some level => .ok level
  | none => .error (.noLevel value)

/-- A text. -/
def readString : Value → Except AttributeFault String
  | .string s => .ok s
  | .null => .ok ""
  | other => .error (.noText other)

/-- A condition: a text, or a number or truth value taken as it is written. -/
def readCondition : Value → Except AttributeFault String
  | .number n => .ok n.text
  | .bool true => .ok "true"
  | .bool false => .ok "false"
  | other => readString other

/-! ## Kinds -/

/-- A kind with one of its attributes set; nothing if the kind does not know the attribute. The
arms of a conditional are read before everything else, so here their attribute changes nothing. -/
def BlockKind.set? (kind : BlockKind) (name : String) (value : Value) :
    Option (Except AttributeFault BlockKind) :=
  match kind, name with
  | .loop _ child, "condition" => some <| (readCondition value).map (.loop · child)
  | .loop condition _, "child" => some <| (readLink value).map (.loop condition ·)
  | .conditional _ ifTrue ifFalse, "condition" =>
    some <| (readCondition value).map (.conditional · ifTrue ifFalse)
  | .conditional .., "children" => some <| .ok kind
  | .read _ pin, "variable" | .read _ pin, "var" => some <| (readString value).map (.read · pin)
  | .read name _, "pin" => some <| (readPin value).map (.read name ·)
  | .write _ level, "pin" => some <| (readPin value).map (.write · level)
  | .write pin _, "value" => some <| (readLevel value).map (.write pin ·)
  | .sleep _, "length" => some <| (readLength value).map .sleep
  | .code _, "code" => some <| (readString value).map .code
  | .declare _, "name" => some <| (readString value).map .declare
  | _, _ => none

end BlockDiagram
