/-
Settings.

The settings say how a program is laid out, where results go and which serial device the program is
loaded through. They are written in TOML. Every setting has a default; a setting that does not
exist, or that has a value of the wrong kind, makes all of them unusable. A section may also be
given as an array with its settings in order, in which case those left out take their defaults and
surplus items are ignored.
-/
import BlockDiagram.Files.Tree
import BlockDiagram.Program.Fragment
import BlockDiagram.Text.Quoted
import BlockDiagram.Toml.Document

set_option autoImplicit false

namespace BlockDiagram

open Toml (Entries)

/-! ## Sections -/

/-- How a program is laid out. -/
structure Layout where
  /-- Spaces for each level of nesting. -/
  indentWidth : UInt64
  deriving DecidableEq, Repr

/-- The layout where none is given. -/
def defaultLayout : Layout := ⟨defaultIndentWidth⟩

/-- Where results are written. -/
structure Output where
  source : String
  binary : String
  deriving DecidableEq, Repr

/-- The output where none is given. -/
def defaultOutput : Output := ⟨"program.c", "program.hex"⟩

/-- All settings. -/
structure Settings where
  layout : Layout
  output : Output
  /-- The serial device to load the program through; without one it is not loaded. -/
  device : Option String
  deriving DecidableEq, Repr

namespace Settings

/-! ## Reading -/

/-- A setting that is a text. -/
def text? : Toml.Value → Option String
  | .string s => some s
  | _ => none

/-- A setting that is a natural number. -/
def natural? : Toml.Value → Option UInt64
  | .integer n => if 0 ≤ n then some (UInt64.ofNat n.toNat) else none
  | _ => none

/-- What a value gives, or the default where no value is given. -/
def givenOr {α : Type} (fallback : α) (read? : Toml.Value → Option α) :
    Option Toml.Value → Option α
  | none => some fallback
  | some value => read? value

/-- The settings of a section by their names. As a table a section has no other names; as an array
it gives the settings in order. -/
def entries? (names : List String) : Toml.Value → Option Entries
  | .table _ entries => if entries.all (names.contains ·.1) then some entries else none
  | .array items => some (names.zip items)
  | _ => none

/-- The layout in a section. -/
def layout? (value : Toml.Value) : Option Layout := do
  let entries ← entries? ["indent_width"] value
  return ⟨← givenOr defaultLayout.indentWidth natural? (entries.lookup "indent_width")⟩

/-- The output in a section. -/
def output? (value : Toml.Value) : Option Output := do
  let entries ← entries? ["source", "binary"] value
  return ⟨← givenOr defaultOutput.source text? (entries.lookup "source"),
    ← givenOr defaultOutput.binary text? (entries.lookup "binary")⟩

/-- The settings in a text. -/
def ofText? (text : String) : Option Settings := do
  let entries ← Toml.read? text
  if !entries.all (["codegen", "output", "port"].contains ·.1) then none
  else return ⟨← givenOr defaultLayout layout? (entries.lookup "codegen"),
    ← givenOr defaultOutput output? (entries.lookup "output"),
    ← givenOr none (fun value => (text? value).map some) (entries.lookup "port")⟩

/-! ## Files -/

/-- Why there are no settings. -/
inductive Error where
  /-- Their file cannot be read. -/
  | unreadable (error : FileError)
  /-- The text is not TOML, or a setting is wrong. -/
  | unusable

/-- The wording of a settings error. What the file system or the TOML reader has to say would
follow. -/
def Error.message : Error → String
  | .unreadable error => "failed to read config " ++ error.path ++ ": "
  | .unusable => "invalid config: "

/-- The settings in a file. -/
def ofFile (files : Files) (path : String) : Except Error Settings :=
  match files.readText path with
  | .error error => .error (.unreadable error)
  | .ok text =>
    match ofText? text with
    | some settings => .ok settings
    | none => .error .unusable

/-! ## Wording -/

/-- The settings spelled out on one line. -/
def summary (settings : Settings) : String :=
  let layout := "CodegenOptions \x7b indent_width: " ++
    decimal settings.layout.indentWidth.toNat ++ " \x7d"
  let output := "OutputConfig \x7b source: " ++ quoted settings.output.source ++
    ", binary: " ++ quoted settings.output.binary ++ " \x7d"
  let device := match settings.device with
    | some device => "Some(" ++ quoted device ++ ")"
    | none => "None"
  "TranspilerConfig \x7b codegen: " ++ layout ++ ", output: " ++ output ++ ", port: " ++ device ++
    " \x7d"

end Settings

end BlockDiagram
