/-
From a document to a board.

A deployment compiles a document, writes the source, has a tool build the binary and, if a device is
set, has another tool load it onto the board. The tools are the caller's: what they do to the files
is up to them, and the deployment only looks at whether they succeed. It stops at the first stage
that fails, and a stage that was not reached has left no trace.
-/
import BlockDiagram.Compilation
import BlockDiagram.Settings

set_option autoImplicit false

namespace BlockDiagram

/-! ## Tools -/

/-- The failure of a tool, as the tool tells it. -/
structure ToolFailure where
  tool : String
  detail : String
  deriving DecidableEq, Repr

/-- The wording of a tool's failure. -/
def ToolFailure.message (failure : ToolFailure) : String :=
  failure.tool ++ " failed: " ++ failure.detail

/-- The tools of a deployment. Each may change the files, also when it fails. -/
structure Tools where
  /-- Builds a binary from a source. -/
  build : Files → (source binary : String) → Except ToolFailure Unit × Files
  /-- Loads a binary through a device. -/
  upload : Files → (binary device : String) → Except ToolFailure Unit × Files

/-! ## Stages -/

/-- Why a deployment stopped early. -/
inductive DeployError where
  | compile (error : CompileError)
  | unwritable (error : FileError)
  | tool (failure : ToolFailure)

/-- The wording of a deployment error. -/
def DeployError.message : DeployError → String
  | .compile error => error.message
  | .unwritable error => "failed to write " ++ error.path ++ ": "
  | .tool failure => failure.message

/-- A stage that was begun. One that calls a tool keeps the files that the tool found. -/
inductive Stage where
  | compile (input : String)
  | makeDirectory (path : String)
  | write (path : String) (program : String)
  | build (source binary : String) (found : Files)
  | upload (binary device : String) (found : Files)

/-- What a deployment has produced. -/
structure Product where
  source : String
  binary : String
  /-- The device that the binary was loaded through, if it was. -/
  uploaded : Option String
  deriving DecidableEq, Repr

/-- The files during a deployment, and the stages begun so far in their order. -/
structure Progress where
  files : Files
  stages : List Stage

/-- A part of a deployment. -/
abbrev Deploying := ExceptT DeployError (StateM Progress)

namespace Deploying

/-- Begin a stage. -/
def begin (stage : Stage) : Deploying Unit :=
  modify fun progress => { progress with stages := progress.stages ++ [stage] }

/-- Take over the files after an operation, and stop if it failed. -/
def finish {ε : Type} (cause : ε → DeployError) (outcome : Except ε Unit × Files) :
    Deploying Unit := do
  modify fun progress => { progress with files := outcome.2 }
  match outcome.1 with
  | .ok () => return
  | .error error => throw (cause error)

/-- Compile the document. -/
def compile (settings : Settings) (input : String) : Deploying String := do
  begin (.compile input)
  match Program.ofFile (← get).files input settings.layout.indentWidth with
  | .ok program => return program
  | .error error => throw (.compile error)

/-- The directory to be made before a file is written, if the path of the file names one. -/
def parentToMake? (path : String) : Option String :=
  (Path.parent? path).filter fun parent => !parent.isEmpty

/-- Make the directory that a file is to be written to. -/
def makeParent (path : String) : Deploying Unit := do
  match parentToMake? path with
  | none => return
  | some parent =>
    begin (.makeDirectory parent)
    finish (fun fault => .unwritable ⟨parent, fault⟩) ((← get).files.makeDirectories parent)

/-- Write the source. -/
def write (path program : String) : Deploying Unit := do
  begin (.write path program)
  finish (fun fault => .unwritable ⟨path, fault⟩) ((← get).files.write path program.toUTF8)

/-- Build the binary. -/
def build (tools : Tools) (source binary : String) : Deploying Unit := do
  let files := (← get).files
  begin (.build source binary files)
  finish .tool (tools.build files source binary)

/-- Load the binary, if a device is set. -/
def upload (tools : Tools) (binary : String) : Option String → Deploying Unit
  | none => return
  | some device => do
    let files := (← get).files
    begin (.upload binary device files)
    finish .tool (tools.upload files binary device)

/-- All stages in their order. -/
def all (settings : Settings) (tools : Tools) (input : String) : Deploying Product := do
  let program ← compile settings input
  makeParent settings.output.source
  write settings.output.source program
  build tools settings.output.source settings.output.binary
  upload tools settings.output.binary settings.device
  return ⟨settings.output.source, settings.output.binary, settings.device⟩

end Deploying

/-! ## Deployments -/

/-- The result of a deployment, the stages that it began and the files that it left. -/
structure Deployment where
  result : Except DeployError Product
  stages : List Stage
  files : Files

/-- Take a document all the way to a board. -/
def deploy (settings : Settings) (tools : Tools) (files : Files) (input : String) : Deployment :=
  let (result, progress) := (Deploying.all settings tools input).run.run ⟨files, []⟩
  ⟨result, progress.stages, progress.files⟩

end BlockDiagram
