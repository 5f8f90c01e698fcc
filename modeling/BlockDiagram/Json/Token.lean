/-
Tokens of a JSON text.

A text is cut into punctuation marks, words, numbers and strings, with blanks allowed between
them. Each scan below looks at the front of the text and hands back what lies behind the token,
which is shorter; that is why cutting a whole text ends. Two tokens may touch: whether they may
follow each other is a matter of the grammar, and there no two values stand side by side.
-/
import BlockDiagram.Json.Number

set_option autoImplicit false

namespace BlockDiagram.Json

/-- A token. -/
inductive Token where
  | openBrace
  | closeBrace
  | openBracket
  | closeBracket
  | comma
  | colon
  | null
  | bool (value : Bool)
  | number (value : Number)
  | string (value : String)
  deriving DecidableEq, Repr

/-! ## Strings -/

/-- The value of a hexadecimal digit of either case. -/
def hexValue? (c : Char) : Option Nat :=
  if c.isDigit then some (c.toNat - '0'.toNat)
  else if 'a' ≤ c ∧ c ≤ 'f' then some (c.toNat - 'a'.toNat + 10)
  else if 'A' ≤ c ∧ c ≤ 'F' then some (c.toNat - 'A'.toNat + 10)
  else none

/-- The number that four hexadecimal digits denote. -/
def hexUnit? (a b c d : Char) : Option Nat := do
  return (((← hexValue? a) * 16 + (← hexValue? b)) * 16 + (← hexValue? c)) * 16 + (← hexValue? d)

/-- Whether a unit is the first of a pair that denotes one character. -/
def isLeadingUnit (n : Nat) : Bool := 0xd800 ≤ n && n < 0xdc00

/-- Whether a unit is the second of such a pair. -/
def isTrailingUnit (n : Nat) : Bool := 0xdc00 ≤ n && n < 0xe000

/-- The character of a pair of units. -/
def pairChar (lead trail : Nat) : Char :=
  Char.ofNat (0x10000 + (lead - 0xd800) * 0x400 + (trail - 0xdc00))

/-- The character that a one-letter escape stands for. -/
def escapedChar? : Char → Option Char
  | '"' => some '"'
  | '\\' => some '\\'
  | '/' => some '/'
  | 'b' => some '\x08'
  | 'f' => some '\x0c'
  | 'n' => some '\n'
  | 'r' => some '\r'
  | 't' => some '\t'
  | _ => none

/-- The rest of a string literal whose opening quote is gone: the characters up to the closing
quote, put behind those read so far (latest first), and what follows it. A unit of a pair that
stands alone denotes no character and is refused, as is a bare control character. -/
def scanString (read : List Char) : List Char → Option (String × List Char)
  | [] => none
  | '"' :: rest => some (String.ofList read.reverse, rest)
  | '\\' :: 'u' :: a :: b :: c :: d :: rest =>
    match hexUnit? a b c d with
    | none => none
    | some lead =>
      if isLeadingUnit lead then
        match rest with
        | '\\' :: 'u' :: e :: f :: g :: h :: rest =>
          match hexUnit? e f g h with
          | some trail =>
            if isTrailingUnit trail then scanString (pairChar lead trail :: read) rest else none
          | none => none
        | _ => none
      else if isTrailingUnit lead then none
      else scanString (Char.ofNat lead :: read) rest
  | '\\' :: c :: rest =>
    match escapedChar? c with
    | some c => scanString (c :: read) rest
    | none => none
  | c :: rest => if c.toNat < 0x20 || c = '\\' then none else scanString (c :: read) rest

/-! ## Numbers -/

/-- The exponent part of a number literal, if one begins here; its digits must not be missing. -/
def scanExponent (cs : List Char) : Option (Option (Bool × List Char) × List Char) :=
  match cs with
  | 'e' :: rest | 'E' :: rest =>
    let (negative, rest) := match rest with
      | '-' :: rest => (true, rest)
      | '+' :: rest => (false, rest)
      | rest => (false, rest)
    let digits := rest.takeWhile Char.isDigit
    if digits.isEmpty then none else some (some (negative, digits), rest.dropWhile Char.isDigit)
  | _ => some (none, cs)

/-- The fraction of a number literal, if one begins here; its digits must not be missing. -/
def scanFraction (cs : List Char) : Option (Option (List Char) × List Char) :=
  match cs with
  | '.' :: rest =>
    let digits := rest.takeWhile Char.isDigit
    if digits.isEmpty then none else some (some digits, rest.dropWhile Char.isDigit)
  | _ => some (none, cs)

/-- The digits of a number literal before the point. A leading zero stands alone. -/
def scanWhole (cs : List Char) : Option (List Char × List Char) :=
  match cs with
  | '0' :: rest => some (['0'], rest)
  | _ =>
    let digits := cs.takeWhile Char.isDigit
    if digits.isEmpty then none else some (digits, cs.dropWhile Char.isDigit)

/-- A number literal without its sign. -/
def scanNumber (negative : Bool) (cs : List Char) : Option (Number × List Char) := do
  let (whole, rest) ← scanWhole cs
  let (fraction, rest) ← scanFraction rest
  let (exponent, rest) ← scanExponent rest
  let number ← Literal.number? ⟨negative, whole, fraction, exponent⟩
  return (number, rest)

/-! ## Whole texts -/

/-- Whether a character may stand between tokens. -/
def isSpacing (c : Char) : Bool := c = ' ' || c = '\t' || c = '\n' || c = '\r'

/-- The token that the text begins with, and the rest of the text. -/
def Token.first? : List Char → Option (Token × List Char)
  | '\x7b' :: rest => some (.openBrace, rest)
  | '\x7d' :: rest => some (.closeBrace, rest)
  | '[' :: rest => some (.openBracket, rest)
  | ']' :: rest => some (.closeBracket, rest)
  | ',' :: rest => some (.comma, rest)
  | ':' :: rest => some (.colon, rest)
  | 'n' :: 'u' :: 'l' :: 'l' :: rest => some (.null, rest)
  | 't' :: 'r' :: 'u' :: 'e' :: rest => some (.bool true, rest)
  | 'f' :: 'a' :: 'l' :: 's' :: 'e' :: rest => some (.bool false, rest)
  | '"' :: rest => (scanString [] rest).map fun (s, rest) => (.string s, rest)
  | '-' :: rest => (scanNumber true rest).map fun (n, rest) => (.number n, rest)
  | cs => (scanNumber false cs).map fun (n, rest) => (.number n, rest)

/-- The tokens of a text. The fuel counts characters, and every token takes at least one. -/
def tokensWithin : Nat → List Char → Option (List Token)
  | fuel, cs =>
    match cs.dropWhile isSpacing with
    | [] => some []
    | rest =>
      match fuel, Token.first? rest with
      | fuel + 1, some (token, rest) => (tokensWithin fuel rest).map (token :: ·)
      | _, _ => none

/-- The tokens of a text; nothing if some part of it is no token. -/
def tokens (text : String) : Option (List Token) :=
  tokensWithin text.length text.toList

end BlockDiagram.Json
