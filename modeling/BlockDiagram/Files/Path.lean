/-
Paths.

A path is the text that a user gave, and messages show it as it was given. What it leads to is
decided by its components, the parts between slashes: an empty part counts for nothing, `.` stays
where it is and `..` goes one directory up. A slash at the front starts from the root, one at the
end asks for a directory. Names and whole paths may not grow beyond a limit, counted in bytes.
-/

set_option autoImplicit false

namespace BlockDiagram

namespace Path

/-! ## Components -/

/-- The components of a path; empty parts are left out. -/
def components (path : String) : List String :=
  ((path.toList.splitOn '/').filter fun part => !part.isEmpty).map String.ofList

/-- Whether a path starts from the root. -/
def isAbsolute (path : String) : Bool :=
  path.toList.head? == some '/'

/-- Whether a path ends with a slash. -/
def endsWithSlash (path : String) : Bool :=
  path.toList.getLast? == some '/'

/-! ## Limits -/

/-- The most bytes of UTF-8 that a name may take. -/
def nameLimit : Nat := 255

/-- The most bytes of UTF-8 that a whole path may take. -/
def lengthLimit : Nat := 4095

/-- Whether a name is short enough for a file or directory to bear it. -/
def fitsName (name : String) : Bool :=
  name.utf8ByteSize ≤ nameLimit

/-- Whether a path is short enough to be looked up at all. -/
def fits (path : String) : Bool :=
  path.utf8ByteSize ≤ lengthLimit

/-- Whether a path holds the NUL character, which no name can have. -/
def holdsNul (path : String) : Bool :=
  path.toList.contains '\x00'

/-! ## Parents -/

/-- Whether a part leads nowhere. -/
def isIdle (part : List Char) : Bool :=
  part.isEmpty || part = ['.']

/-- The front of a path that is never cut off, and the rest: a slash, or a `.` of its own. -/
def splitFront (path : List Char) : List Char × List Char :=
  match path with
  | '/' :: rest => (['/'], rest)
  | ['.'] => (['.'], [])
  | '.' :: '/' :: rest => (['.'], '/' :: rest)
  | _ => ([], path)

/-- The path without its last component, and without idle parts around that; nothing for the root
and for the empty path. What is left is not touched. -/
def parent? (path : String) : Option String :=
  let (front, body) := splitFront path.toList
  match (body.splitOn '/').reverse.dropWhile isIdle with
  | _ :: parts =>
    some (String.ofList (front ++ ['/'].intercalate (parts.dropWhile isIdle).reverse))
  | [] => if front = ['.'] then some "" else none

end Path

end BlockDiagram
