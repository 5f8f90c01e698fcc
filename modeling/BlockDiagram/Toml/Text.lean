/-
Strings, blanks and keys of TOML.

There are four forms of string: basic strings know escapes and literal strings do not, and each
has a form in three quotes that may span lines. In the latter a line break directly behind the
opening quotes does not count, every other one becomes a line feed, and up to two quotes may stand
before the closing three.
-/
import BlockDiagram.Json.Token
import BlockDiagram.Toml.Scan

set_option autoImplicit false

namespace BlockDiagram.Toml

open Scanner

/-! ## Characters -/

/-- Whether a character may stand in a comment. -/
def isCommentChar (c : Char) : Bool :=
  c = '\t' || (0x20 ≤ c.toNat && c.toNat ≠ 0x7f)

/-- Whether a character may stand unescaped in a basic string. -/
def isBasicChar (c : Char) : Bool :=
  isCommentChar c && c ≠ '"' && c ≠ '\\'

/-- Whether a character may stand in a literal string. -/
def isLiteralChar (c : Char) : Bool :=
  isCommentChar c && c ≠ '\''

/-- Whether a character may stand in a key without quotes. -/
def isBareKeyChar (c : Char) : Bool :=
  c.isAlphanum || c = '_' || c = '-'

/-- Whether a character is blank space within a line. -/
def isSpace (c : Char) : Bool :=
  c = ' ' || c = '\t'

/-! ## Blank space -/

/-- Blank space within a line. -/
def space : Scanner Unit := do
  discard <| many isSpace

/-- A line break. -/
def newline : Scanner Unit :=
  exactly "\n" <|> exactly "\r\n"

/-- A comment, without the end of its line. -/
def comment : Scanner Unit := do
  exactly "#"
  discard <| many isCommentChar

/-- The end of a line or of the text. -/
def lineEnd : Scanner Unit := do
  match ← peek? with
  | none => return
  | some _ => newline

/-- What may stand behind an item at the end of its line. -/
def lineRest : Scanner Unit := do
  space
  discard <| attempt comment
  lineEnd

/-- Blank space over several lines, with comments. -/
def blankLines : Scanner Unit := do
  space
  discard <| all (do discard <| attempt comment; newline; space)

/-! ## Escapes -/

/-- The character of a code point; a surrogate is none. -/
def charOfCode? (n : Nat) : Option Char :=
  if n.isValidChar then some (Char.ofNat n) else none

/-- The character that a one-letter escape stands for. -/
def escapedChar? : Char → Option Char
  | 'b' => some '\x08'
  | 'f' => some '\x0c'
  | 'n' => some '\n'
  | 'r' => some '\r'
  | 't' => some '\t'
  | '"' => some '"'
  | '\\' => some '\\'
  | _ => none

/-- The number that hexadecimal digits denote; nothing if one of them is none. -/
def hexNumber? (digits : List Char) : Option Nat :=
  digits.foldlM (fun n c => (Json.hexValue? c).map (16 * n + ·)) 0

/-- One escape, without its backslash. -/
def escape : Scanner Char := fun cs =>
  let code (digits : Nat) (rest : List Char) : Option (Char × List Char) := do
    if rest.length < digits then none
    else return (← charOfCode? (← hexNumber? (rest.take digits)), rest.drop digits)
  match cs with
  | 'u' :: rest => code 4 rest
  | 'U' :: rest => code 8 rest
  | c :: rest => (escapedChar? c).map (·, rest)
  | [] => none

/-! ## Strings -/

/-- A basic string on one line. -/
def basicString : Scanner String := do
  exactly "\""
  let chars ← all (one isBasicChar <|> do exactly "\\"; escape)
  exactly "\""
  return String.ofList chars

/-- A literal string on one line. -/
def literalString : Scanner String := do
  exactly "'"
  let chars ← many isLiteralChar
  exactly "'"
  return String.ofList chars

/-- A backslash at the end of a line: it joins the next text, whatever line that is on. -/
def joinedLines : Scanner (List Char) := do
  exactly "\\"
  space
  newline
  discard <| all ((do discard <| one isSpace) <|> newline)
  return []

/-- The line break that may stand behind opening quotes. -/
def openingBreak : Scanner Unit := do
  discard <| attempt newline

/-- Closing quotes, three of them, and the quotes of the text that stand before them. -/
def closingQuotes (quote : Char) : Scanner (List Char) := do
  let quotes ← many (· = quote)
  let n := quotes.length
  require (3 ≤ n && n ≤ 5)
  return quotes.drop 3

/-- Quotes of the text that the text goes on after: at most two in a row. -/
def innerQuotes (quote : Char) : Scanner (List Char) := do
  let quotes ← many1 (· = quote)
  require (quotes.length < 3)
  return quotes

/-- A string in three quotes, given what its text is made of apart from quotes. -/
def multilineString (quote : Char) (part : Scanner (List Char)) : Scanner String := do
  exactly (String.ofList [quote, quote, quote])
  openingBreak
  let parts ← all (part <|> innerQuotes quote)
  let last ← closingQuotes quote
  return String.ofList (parts.flatten ++ last)

/-- A line break within a string in three quotes. -/
def brokenLine : Scanner (List Char) := do
  newline
  return ['\n']

/-- A basic string over several lines. -/
def multilineBasic : Scanner String :=
  multilineString '"' <| many1 isBasicChar <|> joinedLines <|>
    (do exactly "\\"; return [← escape]) <|> brokenLine

/-- A literal string over several lines. -/
def multilineLiteral : Scanner String :=
  multilineString '\'' <| many1 isLiteralChar <|> brokenLine

/-- A string of any form. -/
def string : Scanner String :=
  multilineBasic <|> basicString <|> multilineLiteral <|> literalString

/-! ## Keys -/

/-- One part of a key. -/
def simpleKey : Scanner String :=
  basicString <|> literalString <|> do return String.ofList (← many1 isBareKeyChar)

/-- The number of parts that a key may not reach, and of arrays and inline tables that may not lie
inside each other. -/
def depthLimit : Nat := 80

/-- A key: its parts, with points between them and blank space around each. -/
def key : Scanner (List String) := do
  let parts ← separated (do space; let part ← simpleKey; space; return part) (exactly ".")
  require (!parts.isEmpty && parts.length < depthLimit)
  return parts

end BlockDiagram.Toml
