/-
TOML documents.

A document is a row of lines: keys with values, and headers that say which table the keys below them
belong to. A header may come once for a table and not for one that was made by a key; headers in
double brackets add a table to a list each time.
-/
import BlockDiagram.Toml.Value

set_option autoImplicit false

namespace BlockDiagram.Toml

open Scanner

/-! ## Lines -/

/-- What a line says. -/
inductive Line where
  /-- Nothing: it is empty or a comment. -/
  | blank
  /-- A key has a value. -/
  | pair (key : List String) (value : Value)
  /-- The keys below belong to a table. -/
  | header (path : List String)
  /-- The keys below belong to a new table of a list. -/
  | element (path : List String)

/-- A header in double brackets. -/
def elementLine : Scanner Line := do
  exactly "[["
  let path ← key
  exactly "]]"
  lineRest
  return .element path

/-- A header. -/
def headerLine : Scanner Line := do
  exactly "["
  let path ← key
  exactly "]"
  lineRest
  return .header path

/-- A key with its value. -/
def pairLine : Scanner Line := do
  let (key, value) ← pairOf value
  lineRest
  return .pair key value

/-- A line without content. -/
def blankLine : Scanner Line := do
  newline <|> do comment; lineEnd
  return .blank

/-- The lines of a document. A byte-order mark in front of the first one is skipped. -/
def lines : Scanner (List Line) := do
  discard <| attempt (exactly "\ufeff")
  space
  let lines ← all do
    let line ← blankLine <|> elementLine <|> headerLine <|> pairLine
    space
    return line
  require (← peek?).isNone
  return lines

/-! ## Tables -/

/-- A table with another value for one of its names. -/
def replaceEntry (entries : Entries) (name : String) (value : Value) : Entries :=
  entries.map fun entry => if entry.1 = name then (name, value) else entry

/-- Change the table that a path leads to. Tables are made for parts of the path that do not exist
yet; of a list of tables the latest is taken. -/
def within (entries : Entries) (path : List String) (change : Entries → Option Entries) :
    Option Entries :=
  match path with
  | [] => change entries
  | name :: path =>
    match entries.lookup name with
    | none => do return entries ++ [(name, .table .implied (← within [] path change))]
    | some (.table origin inner) => do
      if origin = .inline then none
      else return replaceEntry entries name (.table origin (← within inner path change))
    | some (.tables (latest :: earlier)) => do
      return replaceEntry entries name (.tables ((← within latest path change) :: earlier))
    | some _ => none

/-- Make the table of a header. One that headers of inner tables implied becomes a table of its
own. -/
def openTable (name : String) (entries : Entries) : Option Entries :=
  match entries.lookup name with
  | none => some (entries ++ [(name, .table .header [])])
  | some (.table .implied inner) => some (replaceEntry entries name (.table .header inner))
  | some _ => none

/-- Add a table to a list of tables. -/
def addElement (name : String) (entries : Entries) : Option Entries :=
  match entries.lookup name with
  | none => some (entries ++ [(name, .tables [[]])])
  | some (.tables elements) => some (replaceEntry entries name (.tables ([] :: elements)))
  | some _ => none

/-- The document so far, and the path of the table that keys belong to. -/
structure Assembly where
  entries : Entries
  path : List String

/-- Put a value under a dotted key. -/
def putPair (key : List String) (value : Value) (entries : Entries) : Option Entries :=
  match key.getLast? with
  | some name => putDotted entries key.dropLast name value
  | none => none

/-- Take account of a line. -/
def Assembly.add (assembly : Assembly) (line : Line) : Option Assembly :=
  let atHeader (path : List String) (change : String → Entries → Option Entries) := do
    return ⟨← within assembly.entries path.dropLast (change (← path.getLast?)), path⟩
  match line with
  | .blank => some assembly
  | .pair key value => do
    let entries ← within assembly.entries assembly.path (putPair key value)
    return { assembly with entries }
  | .header path => atHeader path openTable
  | .element path => atHeader path addElement

/-- The root table of a document; nothing if the text is not TOML. -/
def read? (text : String) : Option Entries := do
  let (lines, _) ← lines text.toList
  return (← lines.foldlM Assembly.add ⟨[], []⟩).entries

end BlockDiagram.Toml
