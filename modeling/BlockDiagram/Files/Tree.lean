/-
A file tree.

A tree maps locations to files and directories; a location is the row of names from the root.
Relative paths start from one directory of the tree. The operations are those that a program needs
which reads a document and writes its results: reading a file, writing one, and making directories.
Each fails for the reasons for which it fails on a disk that is not protected. The disk may run
full, but only the contents of files take room on it. A file is emptied before it is written, so a
content that does not fit leaves its beginning in place of what was there.
-/
import BlockDiagram.Files.Path

set_option autoImplicit false

namespace BlockDiagram

/-! ## Trees -/

/-- The names from the root to a file or directory. -/
abbrev Location := List String

/-- What is found at a location. -/
inductive Node where
  | file (content : ByteArray)
  | directory

-- equality of contents is named, since libraries bring further instances of it
instance : DecidableEq Node
  | .file a, .file b =>
    match ByteArray.instDecidableEq a b with
    | isTrue same => isTrue (congrArg Node.file same)
    | isFalse apart => isFalse fun same => apart (Node.file.inj same)
  | .file _, .directory => isFalse nofun
  | .directory, .file _ => isFalse nofun
  | .directory, .directory => isTrue rfl

/-- Why an operation on files failed. -/
inductive FileFault where
  /-- A part of the path does not exist. -/
  | notFound
  /-- The path leads through a plain file as if it were a directory. -/
  | notADirectory
  /-- The path leads to a directory where a file is needed. -/
  | isADirectory
  /-- A plain file stands where a directory is to be made. -/
  | alreadyExists
  /-- The file is not text. -/
  | invalidData
  /-- The path holds a NUL character. -/
  | nulInPath
  /-- A name in the path, or the path as a whole, is too long. -/
  | tooLong
  /-- The disk has no room for all of a content, or no more of it may be used. -/
  | noRoom
  deriving DecidableEq, Repr

/-- A failure, with the path as it was given. -/
structure FileError where
  path : String
  fault : FileFault
  deriving DecidableEq, Repr

/-- A file tree, and the directory that relative paths start from. -/
@[ext]
structure Files where
  nodes : List (Location × Node)
  here : Location
  /-- The bytes that are left for the contents of files, if there is an end to them. -/
  room : Option Nat

namespace Files

/-- What is found at a location. The root is always a directory. -/
def node? (files : Files) (location : Location) : Option Node :=
  if location = [] then some .directory else files.nodes.lookup location

/-- The tree with a node at a location, in place of what was there. -/
def put (files : Files) (location : Location) (node : Node) : Files :=
  { files with nodes := (location, node) :: files.nodes.filter fun entry => entry.1 ≠ location }

/-- A node put at a location below the root is found there. -/
theorem node?_put_self (files : Files) {location : Location} (h : location ≠ []) (node : Node) :
    (files.put location node).node? location = some node := by
  simp [node?, put, h]

/-- Putting a node at one location changes nothing at another. -/
theorem node?_put_of_ne (files : Files) {location other : Location} (apart : other ≠ location)
    (node : Node) : (files.put location node).node? other = files.node? other := by
  have kept : (files.nodes.filter fun entry => entry.1 ≠ location).lookup other
      = files.nodes.lookup other := by
    induction files.nodes with
    | nil => rfl
    | cons entry rest ih =>
      by_cases there : entry.1 = location
      · have elsewhere : (other == entry.1) = false := beq_eq_false_iff_ne.2 (there ▸ apart)
        rw [List.filter_cons_of_neg (by simpa using there), ih]
        obtain ⟨key, value⟩ := entry
        rw [List.lookup_cons, elsewhere]
      · obtain ⟨key, value⟩ := entry
        rw [List.filter_cons_of_pos (by simpa using there), List.lookup_cons, List.lookup_cons, ih]
  simp only [node?, put, List.lookup_cons, beq_eq_false_iff_ne.2 apart, kept]

/-! ## Ways through a tree -/

/-- Where one component leads. -/
def follow (location : Location) (component : String) : Location :=
  if component = "." then location
  else if component = ".." then location.dropLast
  else location ++ [component]

/-- Where one component leads, provided that it is short enough for a name. -/
def followName (location : Location) (component : String) : Except FileFault Location :=
  if Path.fitsName component then .ok (follow location component) else .error .tooLong

/-- Follow components that must all lead to directories. Only a directory that exists is asked for a
name, so a missing one is noticed before a name behind it that is too long. -/
def descend (files : Files) : Location → List String → Except FileFault Location
  | location, [] => .ok location
  | location, component :: rest =>
    match followName location component with
    | .error fault => .error fault
    | .ok next =>
      match files.node? next with
      | none => .error .notFound
      | some (.file _) => .error .notADirectory
      | some .directory => files.descend next rest

/-- Where a path starts. -/
def origin (files : Files) (path : String) : Location :=
  if Path.isAbsolute path then [] else files.here

/-- Refuse a path that leads nowhere in any tree: it holds a NUL character, is too long or is
empty. -/
def checkPath (path : String) : Except FileFault Unit :=
  if Path.holdsNul path then .error .nulInPath
  else if !Path.fits path then .error .tooLong
  else if path.isEmpty then .error .notFound
  else .ok ()

/-- The directory that holds the end of a path, and the last component of the path, if it has
one. -/
def approach (files : Files) (path : String) : Except FileFault (Location × Option String) := do
  checkPath path
  let components := Path.components path
  let directory ← files.descend (files.origin path) components.dropLast
  return (directory, components.getLast?)

/-- The location that a path leads to, whether or not something is there. -/
def locate (files : Files) (path : String) : Except FileFault Location := do
  match ← files.approach path with
  | (directory, some last) => followName directory last
  | (directory, none) => return directory

/-- Whether a path leads to a directory. -/
def isDirectory (files : Files) (path : String) : Bool :=
  match files.locate path with
  | .ok location => files.node? location = some .directory
  | .error _ => false

/-! ## Reading -/

/-- The content of the file that a path leads to. -/
def read (files : Files) (path : String) : Except FileFault ByteArray := do
  match files.node? (← files.locate path) with
  | none => throw .notFound
  | some .directory => throw .isADirectory
  | some (.file content) =>
    if Path.endsWithSlash path then throw .notADirectory else return content

/-- The text of the file that a path leads to. -/
def readText (files : Files) (path : String) : Except FileError String :=
  match files.read path with
  | .error fault => .error ⟨path, fault⟩
  | .ok content =>
    match String.fromUTF8? content with
    | some text => .ok text
    | none => .error ⟨path, .invalidData⟩

/-! ## Writing -/

/-- Whether a component is a name, and does not just lead around. -/
def isName (component : String) : Bool :=
  component ≠ "." && component ≠ ".."

/-- The bytes that the file at a location holds. -/
def held (files : Files) (location : Location) : Nat :=
  match files.node? location with
  | some (.file content) => content.size
  | _ => 0

/-- The room that there is for a file at a location, with what the file there takes now. -/
def roomAt (files : Files) (location : Location) : Option Nat :=
  files.room.map fun left => left + files.held location

/-- The tree with a file at a location, in place of what was there. -/
def replace (files : Files) (location : Location) (content : ByteArray) : Files :=
  { files.put location (.file content) with
    room := (files.roomAt location).map fun room => room - content.size }

/-- Write a content to a location as far as there is room for it. -/
def fill (files : Files) (location : Location) (content : ByteArray) :
    Except FileFault Unit × Files :=
  match files.roomAt location with
  | none => (.ok (), files.replace location content)
  | some room =>
    if content.size ≤ room then (.ok (), files.replace location content)
    else (.error .noRoom, files.replace location (content.extract 0 room))

/-- Where a file that is written to a path comes to lie. Its directory must exist. -/
def target (files : Files) (path : String) : Except FileFault Location := do
  match ← files.approach path with
  | (directory, some last) =>
    if !isName last || Path.endsWithSlash path then throw .isADirectory
    let location ← followName directory last
    if files.node? location = some .directory then throw .isADirectory
    return location
  | (_, none) => throw .isADirectory

/-- Write a file, which is made or replaced. Nothing happens if no file can be written to the path.
Otherwise what the file held is gone, also if there is no room for all of the content, so the tree
comes with the outcome. -/
def write (files : Files) (path : String) (content : ByteArray) : Except FileFault Unit × Files :=
  match files.target path with
  | .error fault => (.error fault, files)
  | .ok location => files.fill location content

/-- The tree after making one directory, in one that exists already. -/
def makeDirectory (files : Files) (path : String) : Except FileFault Files := do
  match ← files.approach path with
  | (directory, some last) =>
    if !isName last then throw .alreadyExists
    let location ← followName directory last
    if (files.node? location).isSome then throw .alreadyExists
    return files.put location .directory
  | (_, none) => throw .alreadyExists

/-- Make a directory that may exist already. -/
def ensureDirectory (files : Files) (path : String) : Except FileFault Files :=
  match files.makeDirectory path with
  | .ok files => .ok files
  | .error fault => if files.isDirectory path then .ok files else .error fault

/-- Make a directory and those that it lies in, as far as they are missing. A directory that
cannot be made for want of another is made after that one; parents are shorter paths, so the
length of the path bounds how far this goes back. The tree so far comes with the outcome, because
directories made before a failure stay. -/
def ensurePath : Nat → Files → String → Except FileFault Unit × Files
  | 0, files, _ => (.error .notFound, files)
  | bound + 1, files, path =>
    if path.isEmpty then (.ok (), files)
    else
      let last (files : Files) : Except FileFault Unit × Files :=
        match files.ensureDirectory path with
        | .ok files => (.ok (), files)
        | .error fault => (.error fault, files)
      match files.makeDirectory path with
      | .error .notFound =>
        match Path.parent? path with
        | none => (.error .notFound, files)
        | some parent =>
          match ensurePath bound files parent with
          | (.ok (), files) => last files
          | failed => failed
      | _ => last files

/-- Make a directory and those that it lies in, as far as they are missing. -/
def makeDirectories (files : Files) (path : String) : Except FileFault Unit × Files :=
  ensurePath (path.length + 1) files path

end Files

end BlockDiagram
