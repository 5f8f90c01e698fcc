/-
Journal entries.

Whatever the library does it can account for in a journal. A journal is a view on the work: it is
computed from the same input as the work itself, and nothing depends on it. Each entry names the
part of the work that it belongs to.
-/
import BlockDiagram.Text.Numeral

set_option autoImplicit false

namespace BlockDiagram.Journal

/-- How much an entry matters. -/
inductive Level where
  | debug
  | info
  | warn
  deriving DecidableEq, Repr

/-- The word for a level. -/
def Level.word : Level → String
  | .debug => "DEBUG"
  | .info => "INFO"
  | .warn => "WARN"

/-- An entry of a journal. -/
structure Entry where
  level : Level
  text : String
  deriving DecidableEq, Repr

/-- An entry on a line of its own. -/
def Entry.line (entry : Entry) : String :=
  entry.level.word ++ " " ++ entry.text

/-- An entry on a detail. -/
def debug (part text : String) : Entry :=
  ⟨.debug, "[" ++ part ++ "] " ++ text⟩

/-- An entry on the course of the work. -/
def info (part text : String) : Entry :=
  ⟨.info, "[" ++ part ++ "] " ++ text⟩

/-- An entry on something that deserves a look. -/
def warn (part text : String) : Entry :=
  ⟨.warn, "[" ++ part ++ "] " ++ text⟩

/-- The size of a text in a journal: the number of its UTF-8 bytes. -/
def size (text : String) : String :=
  decimal text.utf8ByteSize ++ " bytes"

end BlockDiagram.Journal
