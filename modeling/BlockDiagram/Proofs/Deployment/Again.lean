/-
A deployment made again.

A deployment that went well can be made again on the tree that it left, and then nothing is new: the
same stages are gone through, the tools are shown the same contents, and the tree stays as it is.
This takes tools that can be relied on. What is built has to depend on what the source holds, and on
nothing else that a deployment may have changed; loading has to leave the files alone. And it takes
a document that is still the same, since a deployment may well write over its own document.

The second deployment finds the directories made and the source written. It writes the source over
whatever is there, which is the binary if both have one path, and the build does the rest.
-/
import BlockDiagram.Proofs.Deployment.Footprint
import Mathlib.Data.List.Forall2

set_option autoImplicit false

namespace BlockDiagram

variable {settings : Settings} {tools : Tools} {files files' made : Files} {source path : String}
  {program input : String} {stages : List Stage}

/-! ## Tools to rely on -/

/-- Tools that do the same again. A build goes well just when the source can be read and translated,
which the names of the two files may have a part in, and when the result can be written; nothing
else is written. Loading changes no files. -/
structure Tools.Reproducible (tools : Tools)
    (translate : (source binary : String) → ByteArray → Option ByteArray) : Prop where
  build : ∀ files source binary files', tools.build files source binary = (.ok (), files') ↔
    ∃ content result, files.read source = .ok content ∧
      translate source binary content = some result ∧
        files.write binary result = (.ok (), files')
  upload : ∀ files binary device, (tools.upload files binary device).2 = files

/-- Stages that do the same with the same contents. A build may find another binary from before. -/
inductive Stage.Alike : Stage → Stage → Prop
  | compile (input : String) : Alike (.compile input) (.compile input)
  | makeDirectory (path : String) : Alike (.makeDirectory path) (.makeDirectory path)
  | write (path program : String) : Alike (.write path program) (.write path program)
  | build {source binary : String} {found found' : Files}
    (h : found'.read source = found.read source) :
    Alike (.build source binary found) (.build source binary found')
  | upload (binary device : String) (found : Files) :
    Alike (.upload binary device found) (.upload binary device found)

theorem Stage.Alike.refl (stage : Stage) : stage.Alike stage := by
  cases stage with
  | compile input => exact .compile input
  | makeDirectory path => exact .makeDirectory path
  | write path program => exact .write path program
  | build source binary found => exact .build rfl
  | upload binary device found => exact .upload binary device found

theorem Stage.alike_refl (stages : List Stage) : List.Forall₂ Stage.Alike stages stages :=
  List.forall₂_same.2 fun stage _ => .refl stage

/-! ## Parts of a plan, made again -/

/-- Where the directory is there, it is made again without a change. -/
theorem carryOut_parentTasks_again
    (h : carryOut settings tools (parentTasks path) files = ⟨stages, .ok (), made⟩)
    (hparent : files'.HasParent path) :
    carryOut settings tools (parentTasks path) files' = ⟨stages, .ok (), files'⟩ := by
  rw [carryOut_parentTasks] at h ⊢
  cases hmake : Deploying.parentToMake? path with
  | none =>
    rw [hmake] at h
    obtain rfl : [] = stages := congrArg Outcome.stages h
    rfl
  | some parent =>
    rw [hmake] at h
    obtain rfl : [.makeDirectory parent] = stages := congrArg Outcome.stages h
    simp only [Task.outcome, Files.makeDirectories_of_isDirectory (hparent parent hmake)]
    rfl

theorem carryOut_write_eq_ok_iff :
    carryOut settings tools [.write path program] files = ⟨stages, .ok (), files'⟩ ↔
      stages = [.write path program] ∧ files.write path program.toUTF8 = (.ok (), files') := by
  rw [carryOut_singleton, Task.outcome]
  rcases files.write path program.toUTF8 with ⟨fault | _, written⟩
  · simp [Except.mapError]
  · simp [Except.mapError, eq_comm]

theorem carryOut_build_eq_ok_iff {binary : String} :
    carryOut settings tools [.build source binary] files = ⟨stages, .ok (), files'⟩ ↔
      stages = [.build source binary files] ∧
        tools.build files source binary = (.ok (), files') := by
  rw [carryOut_singleton, Task.outcome]
  rcases tools.build files source binary with ⟨failure | _, built⟩
  · simp [Except.mapError]
  · simp [Except.mapError, eq_comm]

variable {translate : (source binary : String) → ByteArray → Option ByteArray}

/-- Loading leaves the files as they are. -/
theorem Tools.Reproducible.carryOut_upload_files (htools : tools.Reproducible translate)
    (settings : Settings) (binary : String) (device : Option String) (files : Files) :
    (carryOut settings tools (device.toList.map (.upload binary)) files).files = files := by
  cases device with
  | none => rfl
  | some device =>
    rw [Option.toList_some, List.map_singleton, carryOut_singleton]
    exact htools.upload files binary device

/-- From a source that reads the same, the tools make the same of a tree in which the binary can be
written. -/
theorem Tools.Reproducible.carryOut_toolTasks_again {prepared built : Files}
    (htools : tools.Reproducible translate)
    (h : carryOut settings tools settings.toolTasks prepared = ⟨stages, .ok (), built⟩) :
    ∃ result, prepared.write settings.output.binary result = (.ok (), built) ∧
      ∀ prepared', prepared'.read settings.output.source = prepared.read settings.output.source →
        prepared'.write settings.output.binary result = (.ok (), built) →
        ∃ stages', carryOut settings tools settings.toolTasks prepared' = ⟨stages', .ok (), built⟩ ∧
          List.Forall₂ Stage.Alike stages stages' := by
  have hsplit : settings.toolTasks = [.build settings.output.source settings.output.binary] ++
      settings.device.toList.map (.upload settings.output.binary) := rfl
  rw [hsplit] at h ⊢
  obtain ⟨_, after, built', hcall, hupload, rfl⟩ := carryOut_append_eq_ok_iff.1 h
  obtain ⟨rfl, hbuild⟩ := carryOut_build_eq_ok_iff.1 hcall
  -- loading has left the tree that was built
  have hfiles := htools.carryOut_upload_files settings settings.output.binary settings.device built'
  rw [hupload] at hfiles
  obtain rfl : built = built' := hfiles
  obtain ⟨content, result, hread, htranslate, hwrite⟩ := (htools.build _ _ _ _).1 hbuild
  refine ⟨result, hwrite, fun prepared' hread' hwrite' => ?_⟩
  have hbuild' := (htools.build prepared' settings.output.source settings.output.binary built).2
    ⟨content, result, hread'.trans hread, htranslate, hwrite'⟩
  refine ⟨_, carryOut_append_eq_ok_iff.2
    ⟨_, after, built, carryOut_build_eq_ok_iff.2 ⟨rfl, hbuild'⟩, hupload, rfl⟩, ?_⟩
  exact .cons (.build hread') (Stage.alike_refl after)

theorem Files.HasParent.of_write {content : ByteArray} {path' : String} (h : files.HasParent path)
    (hwrite : files.write path' content = (.ok (), files')) : files'.HasParent path :=
  fun parent hmake => (keepsDirectories_of_write hwrite).isDirectory (h parent hmake)

/-- A plan that was carried out to its end can be carried out again on the tree that it left. -/
theorem Tools.Reproducible.carryOut_plan_again (htools : tools.Reproducible translate)
    (h : carryOut settings tools (settings.plan program) files = ⟨stages, .ok (), files'⟩) :
    ∃ stages', carryOut settings tools (settings.plan program) files' = ⟨stages', .ok (), files'⟩ ∧
      List.Forall₂ Stage.Alike stages stages' := by
  rw [Settings.plan_eq, deliveryTasks] at h ⊢
  obtain ⟨_, toolStages, prepared, hdelivery, hcall, rfl⟩ := carryOut_append_eq_ok_iff.1 h
  obtain ⟨parentStages, _, made, hmake, hput, rfl⟩ := carryOut_append_eq_ok_iff.1 hdelivery
  obtain ⟨rfl, hwrite⟩ := carryOut_write_eq_ok_iff.1 hput
  obtain ⟨result, hbinary, hagain⟩ := htools.carryOut_toolTasks_again hcall
  -- the directory is still there, and both files can be written once more
  have hparent : files'.HasParent settings.output.source := by
    obtain ⟨-, ⟨error, herror, -⟩ | ⟨-, hparent⟩⟩ := carryOut_parentTasks_cases hmake
    · cases herror
    · exact (hparent.of_write hwrite).of_write hbinary
  obtain ⟨rewritten, hwrite', hbinary'⟩ := Files.write_again hwrite hbinary
  -- so the build finds the same source again, even if the binary had taken its place
  have hread := (Files.read_of_write hwrite').trans (Files.read_of_write hwrite).symm
  obtain ⟨toolStages', hcall', halike⟩ := hagain rewritten hread hbinary'
  have hmake' := carryOut_parentTasks_again hmake hparent
  have hdelivery' := carryOut_append_eq_ok_iff.2
    ⟨parentStages, _, files', hmake', carryOut_write_eq_ok_iff.2 ⟨rfl, hwrite'⟩, rfl⟩
  refine ⟨_, carryOut_append_eq_ok_iff.2 ⟨_, toolStages', rewritten, hdelivery', hcall', rfl⟩, ?_⟩
  exact List.rel_append (Stage.alike_refl _) halike

/-! ## Whole deployments -/

/-- A deployment with a product has had a program, and has carried out its plan to the end. -/
theorem deploy_eq_ok {product : Product} (tools : Tools)
    (h : (deploy settings tools files input).result = .ok product) :
    ∃ program stages files',
      Program.ofFile files input settings.layout.indentWidth = .ok program ∧
        carryOut settings tools (settings.plan program) files = ⟨stages, .ok (), files'⟩ := by
  cases hprogram : Program.ofFile files input settings.layout.indentWidth with
  | error error =>
    rw [deploy_of_error hprogram] at h
    cases h
  | ok program =>
    rw [deploy_eq_carryOut tools hprogram] at h
    rcases hcarry : carryOut settings tools (settings.plan program) files with
      ⟨stages, _ | _, files'⟩
    · rw [hcarry] at h
      cases h
    · exact ⟨program, stages, files', rfl, hcarry⟩

theorem deploy_of_carryOut
    (hprogram : Program.ofFile files input settings.layout.indentWidth = .ok program)
    (hcarry : carryOut settings tools (settings.plan program) files = ⟨stages, .ok (), files'⟩) :
    deploy settings tools files input =
      ⟨.ok settings.product, .compile input :: stages, files'⟩ := by
  rw [deploy_eq_carryOut tools hprogram, hcarry]
  rfl

/-- Only the text of a document decides what it compiles to. -/
theorem ofFile_congr (width : UInt64) (h : files'.readText input = files.readText input) :
    Program.ofFile files' input width = Program.ofFile files input width := by
  rw [Program.ofFile, Program.ofFile, Graph.ofFile, Graph.ofFile, h]

/-- Whether a deployment repeats another: it has the same result, has gone through stages that do
the same with the same contents, and has left the tree as the other did. -/
structure Deployment.Repeats (first second : Deployment) : Prop where
  result : second.result = first.result
  stages : List.Forall₂ Stage.Alike first.stages second.stages
  files : second.files = first.files

/-- **A deployment can be made again.** With tools to rely on, a deployment that went well and has
left its document readable as before goes well once more, and everything is as it was. -/
theorem deploy_again {product : Product} (htools : tools.Reproducible translate)
    (hfirst : (deploy settings tools files input).result = .ok product)
    (hinput : (deploy settings tools files input).files.readText input = files.readText input) :
    (deploy settings tools files input).Repeats
      (deploy settings tools (deploy settings tools files input).files input) := by
  obtain ⟨program, stages, files', hprogram, hcarry⟩ := deploy_eq_ok tools hfirst
  rw [deploy_of_carryOut hprogram hcarry] at hinput ⊢
  obtain ⟨stages', hcarry', halike⟩ := htools.carryOut_plan_again hcarry
  have hprogram' := (ofFile_congr settings.layout.indentWidth hinput).trans hprogram
  rw [deploy_of_carryOut hprogram' hcarry']
  exact ⟨rfl, .cons (.compile input) halike, rfl⟩

/-! ### Source and binary under one path -/

/-- Tools that copy a source with a line break at its end, and that load nothing. -/
def copyingTools : Tools where
  build files source binary :=
    match files.read source with
    | .error _ => (.error ⟨"copy", "no source"⟩, files)
    | .ok content =>
      match files.write binary (content.push 10) with
      | (.error _, files') => (.error ⟨"copy", "no binary"⟩, files')
      | (.ok (), files') => (.ok (), files')
  upload files _ _ := (.ok (), files)

theorem reproducible_copyingTools :
    copyingTools.Reproducible fun _ _ content => some (content.push 10) where
  build files source binary files' := by
    dsimp only [copyingTools]
    cases files.read source with
    | error fault => simp
    | ok content =>
      dsimp only
      rcases hwrite : files.write binary (content.push 10) with ⟨fault | _, written⟩
      · simp [hwrite]
      · simp [hwrite]
  upload _ _ _ := rfl

/-- Settings that put the binary where the source was, in a directory of its own. -/
def onePath : Settings := ⟨defaultLayout, ⟨"out/program", "out/program"⟩, some "port"⟩

/-- A tree that holds nothing but a document. -/
def startTree : Files where
  nodes := [(["start"], .file startText.toUTF8)]
  here := []
  room := none

/-- The binary takes the place of the source, and it is all the same once more. -/
theorem deploy_again_onePath :
    copyingTools.Reproducible (fun _ _ content => some (content.push 10)) ∧
      (deploy onePath copyingTools startTree "start").result = .ok onePath.product ∧
      (deploy onePath copyingTools startTree "start").files.readText "start" =
        startTree.readText "start" ∧
      (deploy onePath copyingTools startTree "start").Repeats (deploy onePath copyingTools
        (deploy onePath copyingTools startTree "start").files "start") := by
  have hproduct : (deploy onePath copyingTools startTree "start").result = .ok onePath.product := by
    have hsome : (deploy onePath copyingTools startTree "start").result.toOption =
        some onePath.product := by decide +kernel
    generalize (deploy onePath copyingTools startTree "start").result = result at hsome
    cases result with
    | error error => cases hsome
    | ok product => exact congrArg Except.ok (Option.some.inj hsome)
  have hread : (deploy onePath copyingTools startTree "start").files.readText "start" =
      startTree.readText "start" := by decide +kernel
  exact ⟨reproducible_copyingTools, hproduct, hread,
    deploy_again reproducible_copyingTools hproduct hread⟩

end BlockDiagram
