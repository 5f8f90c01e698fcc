/-
Values of TOML.

A value is a string, an integer, an array, a table, or a scalar of another kind. No setting takes
one of the latter, so of those only the kind is kept; that they are well formed is still checked.
-/
import BlockDiagram.Number.Double
import BlockDiagram.Toml.Text

set_option autoImplicit false

namespace BlockDiagram.Toml

open Scanner

/-! ## The types -/

/-- How a table came to be, which decides what may still be added to it. -/
inductive Origin where
  /-- As the value of a key, between braces. Nothing can be added. -/
  | inline
  /-- As a part of a key before a point. Further such keys may add to it. -/
  | dotted
  /-- As a part of a header before a point. A header of its own may follow. -/
  | implied
  /-- By a header of its own. -/
  | header
  deriving DecidableEq, Repr

/-- A scalar that is neither a string nor an integer. -/
inductive Scalar where
  | boolean
  | float
  | dateTime
  deriving DecidableEq, Repr

/-- A value. A table lists its entries in the order of writing; headers in double brackets make a
list of tables, latest first. -/
inductive Value where
  | string (s : String)
  | integer (n : Int)
  | scalar (kind : Scalar)
  | array (items : List Value)
  | table (origin : Origin) (entries : List (String × Value))
  | tables (elements : List (List (String × Value)))

/-- The entries of a table. -/
abbrev Entries := List (String × Value)

/-! ## Numbers -/

/-- Digits of a class with underscores between them, each with digits on both sides. The
underscores are left out of the result. -/
def digits (p : Char → Bool) : Scanner (List Char) := do
  let first ← many1 p
  let more ← all (do exactly "_"; many1 p)
  return first ++ more.flatten

/-- A sign; true for minus. -/
def sign : Scanner Bool := do
  match ← attempt (one fun c => c = '+' || c = '-') with
  | some '-' => return true
  | _ => return false

/-- The digits of a decimal integer. A leading zero stands alone. -/
def decimalDigits : Scanner (List Char) :=
  (do exactly "0"; return ['0']) <|> digits Char.isDigit

/-- An integer as long as it fits sixty-four bits. -/
def bounded (negative : Bool) (n : Nat) : Scanner Value := do
  require (if negative then n ≤ Nat.pow 2 63 else n < Nat.pow 2 63)
  return .integer (if negative then -(n : Int) else n)

/-- A decimal integer. -/
def decimalInteger : Scanner Value := do
  let negative ← sign
  bounded negative (Nat.ofDigitChars 10 (← decimalDigits) 0)

/-- An integer to another base, which its first two characters name. It has no sign. -/
def basedInteger (mark : String) (base : Nat) : Scanner Value := do
  exactly mark
  let number := (← digits fun c => (Json.hexValue? c).any (· < base)).foldl
    (fun n c => base * n + (Json.hexValue? c).getD 0) 0
  bounded false number

/-- An integer. -/
def integer : Scanner Value :=
  basedInteger "0x" 16 <|> basedInteger "0o" 8 <|> basedInteger "0b" 2 <|> decimalInteger

/-- Whether the decimal `digits · 10^exponent` is too large for a finite double. Beyond 10^400 it
is, and below 10^-400 it is not, without a look at the digits. -/
def overflows (digits : List Char) (exponent : Int) : Bool :=
  let number := Nat.ofDigitChars 10 digits 0
  let size := (Nat.toDigits 10 number).length + exponent
  if number = 0 || size < -400 then false
  else if 400 < size then true
  else rankLimit ≤
    nearestRank (number * Nat.pow 10 exponent.toNat * Nat.pow 2 1074) (Nat.pow 10 (-exponent).toNat)

/-- A fraction. -/
def fraction : Scanner (List Char) := do
  exactly "."
  digits Char.isDigit

/-- An exponent. -/
def exponent : Scanner Int := do
  discard <| one fun c => c = 'e' || c = 'E'
  let negative ← sign
  let n := Nat.ofDigitChars 10 (← digits Char.isDigit) 0
  return if negative then -(n : Int) else n

/-- A float in digits. One that is too large is refused, unless it is negative. -/
def digitFloat : Scanner Value := do
  let negative ← sign
  let whole ← decimalDigits
  let fraction ← attempt fraction
  let exponent ← attempt exponent
  require (fraction.isSome || exponent.isSome)
  let fraction := fraction.getD []
  require (negative || !overflows (whole ++ fraction) (exponent.getD 0 - fraction.length))
  return .scalar .float

/-- A float. -/
def float : Scanner Value :=
  digitFloat <|> do
    discard sign
    exactly "inf" <|> exactly "nan"
    return .scalar .float

/-! ## Dates and times -/

/-- A number of so many digits, within bounds. -/
def fixedNumber (count low high : Nat) : Scanner Nat := fun cs => do
  let number := cs.take count
  let n := Nat.ofDigitChars 10 number 0
  if number.length = count && number.all Char.isDigit && low ≤ n && n ≤ high then
    return (n, cs.drop count)
  else none

/-- The number of days in a month. -/
def daysIn (year month : Nat) : Nat :=
  if month = 2 then
    if year % 4 = 0 && (year % 100 ≠ 0 || year % 400 = 0) then 29 else 28
  else if month = 4 || month = 6 || month = 9 || month = 11 then 30
  else 31

/-- A date. -/
def date : Scanner Unit := do
  let year ← fixedNumber 4 0 9999
  exactly "-"
  let month ← fixedNumber 2 1 12
  exactly "-"
  discard <| fixedNumber 2 1 (daysIn year month)

/-- A time of day. -/
def time : Scanner Unit := do
  discard <| fixedNumber 2 0 23
  exactly ":"
  discard <| fixedNumber 2 0 59
  exactly ":"
  discard <| fixedNumber 2 0 60
  discard <| attempt (do exactly "."; many1 Char.isDigit)

/-- The distance from universal time. -/
def offset : Scanner Unit :=
  (do discard <| one fun c => c = 'Z' || c = 'z') <|> do
    discard <| one fun c => c = '+' || c = '-'
    discard <| fixedNumber 2 0 23
    exactly ":"
    discard <| fixedNumber 2 0 59

/-- A date, a time, or both. -/
def dateTime : Scanner Value := do
  let dated : Scanner Unit := do
    date
    discard <| attempt do
      discard <| one fun c => c = 'T' || c = 't' || c = ' '
      time
      attempt offset
  dated <|> time
  return .scalar .dateTime

/-! ## Tables -/

/-- Put a value under a key into a table, below the tables that the parts of its path name; nothing
if that would redefine something. Tables are made for parts of the path that do not exist yet. Only
tables that came to be in that way may be added to. -/
def putDotted (entries : Entries) : List String → String → Value → Option Entries
  | [], name, value =>
    if (entries.lookup name).isSome then none else some (entries ++ [(name, value)])
  | part :: path, name, value => do
    match entries.lookup part with
    | none => return entries ++ [(part, .table .dotted (← putDotted [] path name value))]
    | some (.table .dotted inner) =>
      let inner ← putDotted inner path name value
      return entries.map fun (n, v) => if n = part then (n, .table .dotted inner) else (n, v)
    | some _ => none

/-- A table from its keys and values in the order of writing. -/
def tableOf (pairs : List (List String × Value)) : Option Entries :=
  pairs.foldlM (fun entries (key, value) =>
    match key.reverse with
    | name :: path => putDotted entries path.reverse name value
    | [] => none) []

/-! ## Values -/

/-- An array, given what its items are. -/
def arrayOf (item : Scanner Value) : Scanner Value := do
  exactly "["
  let items ← separated (do blankLines; let v ← item; blankLines; return v) (exactly ",")
  if !items.isEmpty then discard <| attempt (exactly ",")
  blankLines
  exactly "]"
  return .array items

/-- A key and its value, given what values are. -/
def pairOf (value : Scanner Value) : Scanner (List String × Value) := do
  let key ← key
  exactly "="
  space
  return (key, ← value)

/-- An inline table, given what values are. It stays on one line. -/
def inlineTableOf (value : Scanner Value) : Scanner Value := do
  exactly "\x7b"
  let pairs ← separated (do let pair ← pairOf value; space; return pair) (exactly ",")
  space
  exactly "\x7d"
  return .table .inline (← tableOf pairs)

/-- A boolean. -/
def boolean : Scanner Value := do
  exactly "true" <|> exactly "false"
  return .scalar .boolean

/-- A value that contains no other. -/
def scalar : Scanner Value :=
  (do return .string (← string)) <|> dateTime <|> float <|> integer <|> boolean

/-- A value in which arrays and inline tables lie inside each other to a depth at most. -/
def valueWithin : Nat → Scanner Value
  | 0 => scalar
  | depth + 1 => scalar <|> arrayOf (valueWithin depth) <|> inlineTableOf (valueWithin depth)

/-- A value. -/
def value : Scanner Value :=
  valueWithin (depthLimit - 1)

end BlockDiagram.Toml
