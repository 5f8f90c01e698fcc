/-
The journal of a deployment and of reading its settings.

A deployment tells each stage that is finished. Whether a stage was finished shows in what came
after it: the next stage was begun, or the deployment succeeded.
-/
import BlockDiagram.Deployment
import BlockDiagram.Journal.Compilation

set_option autoImplicit false

namespace BlockDiagram.Journal

/-- The journal of reading settings from a file. -/
def settings (files : Files) (path : String) : List Entry :=
  match Settings.ofFile files path with
  | .ok settings => [debug "CONFIG" ("Loaded " ++ path ++ ": " ++ settings.summary)]
  | .error _ => []

/-- The name of a deployment. -/
private def pipeline : String := "PIPELINE"

/-- Whether a stage builds. -/
def isBuild : Stage → Bool
  | .build .. => true
  | _ => false

/-- Whether a stage uploads. -/
def isUpload : Stage → Bool
  | .upload .. => true
  | _ => false

/-- The program that a stage writes. -/
def written? : Stage → Option String
  | .write _ program => some program
  | _ => none

/-- The journal of a deployment. -/
def deployment (settings : Settings) (tools : Tools) (files : Files) (input : String) :
    List Entry :=
  let run := deploy settings tools files input
  let wrote :=
    if run.stages.any isBuild then
      run.stages.filterMap fun stage => (written? stage).map fun program =>
        info pipeline ("Wrote " ++ settings.output.source ++ " (" ++ size program ++ ")")
    else []
  let built :=
    if run.stages.any isUpload || run.result.isOk then
      [info pipeline ("Built " ++ settings.output.binary)]
    else []
  let uploaded := match run.result with
    | .ok ⟨_, _, some device⟩ => [info pipeline ("Uploaded to " ++ device)]
    | .ok ⟨_, _, none⟩ => [info pipeline "No port configured, skipping upload"]
    | .error _ => []
  info pipeline ("Transpiling " ++ input) ::
    compilationOfFile files input settings.layout.indentWidth ++ wrote ++ built ++ uploaded

end BlockDiagram.Journal
