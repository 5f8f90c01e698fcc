/-
Scanning text from the front.

A scanner takes something from the front of a text and leaves the rest, or fails. Scanners are put
together with `do`, and `<|>` tries a second one where the first fails, from the same place. Text
that two alternatives could both begin with never continues validly after the shorter one, so it
does not matter that a failure deep inside an alternative is not final.
-/

set_option autoImplicit false

namespace BlockDiagram.Toml

/-- Takes an `α` from the front of a text. -/
abbrev Scanner (α : Type) := StateT (List Char) Option α

namespace Scanner

variable {α : Type}

/-- The next character, left in place. -/
def peek? : Scanner (Option Char) :=
  fun cs => some (cs.head?, cs)

/-- One character of a class. -/
def one (p : Char → Bool) : Scanner Char
  | c :: cs => if p c then some (c, cs) else none
  | [] => none

/-- Exactly the given text. -/
def exactly (text : String) : Scanner Unit := fun cs =>
  if text.toList.isPrefixOf cs then some ((), cs.drop text.length) else none

/-- As many characters of a class as there are. -/
def many (p : Char → Bool) : Scanner (List Char) := fun cs =>
  some (cs.takeWhile p, cs.dropWhile p)

/-- At least one character of a class. -/
def many1 (p : Char → Bool) : Scanner (List Char) := fun cs =>
  if (cs.takeWhile p).isEmpty then none else some (cs.takeWhile p, cs.dropWhile p)

/-- The scanner's result, or nothing where it fails. -/
def attempt (scan : Scanner α) : Scanner (Option α) := fun cs =>
  match scan cs with
  | some (a, rest) => some (some a, rest)
  | none => some (none, cs)

/-- Fail unless a condition holds. -/
def require (condition : Bool) : Scanner Unit := fun cs =>
  if condition then some ((), cs) else none

/-- Repeat a scanner until it fails, at most as often as the bound allows. -/
def repeated (scan : Scanner α) : Nat → Scanner (List α)
  | 0 => pure []
  | bound + 1 => do
    match ← attempt scan with
    | none => return []
    | some a => return a :: (← repeated scan bound)

/-- Repeat a scanner until it fails. Each turn takes a character at least, so the length of the
text is bound enough. -/
def all (scan : Scanner α) : Scanner (List α) := fun cs =>
  repeated scan cs.length cs

/-- Things with a separator between them, possibly none. A separator with nothing behind it is left
in place. -/
def separated (scan : Scanner α) (separator : Scanner Unit) : Scanner (List α) := do
  match ← attempt scan with
  | none => return []
  | some a => return a :: (← all (do separator; scan))

end Scanner

end BlockDiagram.Toml
