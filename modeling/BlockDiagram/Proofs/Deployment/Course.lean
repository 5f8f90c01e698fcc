/-
The course of a deployment.

A deployment goes through stages, and which ones, in which order and with what between them is laid
down by the settings before anything happens: this is its plan. What then happens depends on files
and on tools that may do anything to them, so a plan says nothing about files. It is carried out
from its beginning, each stage on the files that the one before has left, and the first stage that
fails is the last one that is begun. A deployment adds nothing of its own to what its stages do.

The parts of a deployment are composed one after the other, and so is what is shown of them. A part
carries out a plan if, from all files of which something holds beforehand, it goes through the
stages of the plan in this way, and something holds of the files afterwards if it comes to the end.
What has to hold matters in one place only: when a tool is called to build a binary, the source that
it is given holds the program.
-/
import BlockDiagram.Deployment
import BlockDiagram.Proofs.Files.Writing

set_option autoImplicit false

namespace BlockDiagram

/-! ## Plans -/

/-- A stage that is to come, which does not say yet what files it will find. -/
inductive Task where
  | compile (input : String)
  | makeDirectory (path : String)
  | write (path : String) (program : String)
  | build (source binary : String)
  | upload (binary device : String)

/-- The task that a stage takes up. -/
def Stage.task : Stage → Task
  | .compile input => .compile input
  | .makeDirectory path => .makeDirectory path
  | .write path program => .write path program
  | .build source binary _ => .build source binary
  | .upload binary device _ => .upload binary device

/-- The directory that a path names for its file, unless it names none. -/
def parentTasks (path : String) : List Task :=
  match Path.parent? path with
  | some parent => if parent = "" then [] else [.makeDirectory parent]
  | none => []

/-- The tasks that follow once there is a program. -/
def Settings.plan (settings : Settings) (program : String) : List Task :=
  parentTasks settings.output.source ++ ([.write settings.output.source program] ++
    ([.build settings.output.source settings.output.binary] ++
      settings.device.toList.map (.upload settings.output.binary)))

/-! ## What stages do -/

/-- What a stage does: which files it finds, whether it succeeds, and which files it leaves. A stage
that calls a tool shows the tool the files that it finds. -/
inductive Stage.Does (settings : Settings) (tools : Tools) :
    Stage → Files → Except DeployError Unit → Files → Prop
  | compiled {files : Files} {input program : String}
    (h : Program.ofFile files input settings.layout.indentWidth = .ok program) :
    Does settings tools (.compile input) files (.ok ()) files
  | refused {files : Files} {input : String} {error : CompileError}
    (h : Program.ofFile files input settings.layout.indentWidth = .error error) :
    Does settings tools (.compile input) files (.error (.compile error)) files
  | made {files files' : Files} {path : String}
    (h : files.makeDirectories path = (.ok (), files')) :
    Does settings tools (.makeDirectory path) files (.ok ()) files'
  /-- Some of the directories may have been made. -/
  | unmade {files files' : Files} {path : String} {fault : FileFault}
    (h : files.makeDirectories path = (.error fault, files')) :
    Does settings tools (.makeDirectory path) files (.error (.unwritable ⟨path, fault⟩)) files'
  | written {files files' : Files} {path program : String}
    (h : files.write path program.toUTF8 = (.ok (), files')) :
    Does settings tools (.write path program) files (.ok ()) files'
  /-- A part of the program may have been written. -/
  | unwritten {files files' : Files} {path program : String} {fault : FileFault}
    (h : files.write path program.toUTF8 = (.error fault, files')) :
    Does settings tools (.write path program) files (.error (.unwritable ⟨path, fault⟩)) files'
  | built {files files' : Files} {source binary : String}
    (h : tools.build files source binary = (.ok (), files')) :
    Does settings tools (.build source binary files) files (.ok ()) files'
  | unbuilt {files files' : Files} {source binary : String} {failure : ToolFailure}
    (h : tools.build files source binary = (.error failure, files')) :
    Does settings tools (.build source binary files) files (.error (.tool failure)) files'
  | uploaded {files files' : Files} {binary device : String}
    (h : tools.upload files binary device = (.ok (), files')) :
    Does settings tools (.upload binary device files) files (.ok ()) files'
  | notUploaded {files files' : Files} {binary device : String} {failure : ToolFailure}
    (h : tools.upload files binary device = (.error failure, files')) :
    Does settings tools (.upload binary device files) files (.error (.tool failure)) files'

/-- What a row of stages does. A stage that fails is the last one, and its error is the outcome. -/
inductive Course (settings : Settings) (tools : Tools) :
    List Stage → Files → Except DeployError Unit → Files → Prop
  | done (files : Files) : Course settings tools [] files (.ok ()) files
  | failed {stage : Stage} {files files' : Files} {error : DeployError}
    (h : stage.Does settings tools files (.error error) files') :
    Course settings tools [stage] files (.error error) files'
  | went {stage : Stage} {rest : List Stage} {files files' files'' : Files}
    {outcome : Except DeployError Unit} (h : stage.Does settings tools files (.ok ()) files')
    (hrest : Course settings tools rest files' outcome files'') :
    Course settings tools (stage :: rest) files outcome files''

variable {settings : Settings} {tools : Tools} {files files' : Files} {source program : String}

theorem Course.append {stages stages' : List Stage} {files'' : Files}
    {outcome : Except DeployError Unit} (h : Course settings tools stages files (.ok ()) files')
    (h' : Course settings tools stages' files' outcome files'') :
    Course settings tools (stages ++ stages') files outcome files'' := by
  generalize hok : (Except.ok () : Except DeployError Unit) = first at h
  induction h with
  | done files => exact h'
  | failed => cases hok
  | went hstage _ ih => exact .went hstage (ih h' hok)

/-- A single stage is a course of its own. -/
theorem Stage.Does.course {stage : Stage} {outcome : Except DeployError Unit}
    (h : stage.Does settings tools files outcome files') :
    Course settings tools [stage] files outcome files' := by
  cases outcome with
  | error error => exact .failed h
  | ok _ => exact .went h (.done files')

/-! ## Parts of a deployment -/

namespace Deploying

variable {α β : Type}

/-- Whether a stage that calls a tool to build from a source finds a program there. -/
def FindsProgram (source program : String) : Stage → Prop
  | .build path _ found => path = source ∧ found.read source = .ok program.toUTF8
  | _ => True

/-- What a part of a deployment does with files: the stages that it adds to those that were begun
before, its result, and the files that it leaves. -/
structure Runs (settings : Settings) (tools : Tools) (part : Deploying α) (files : Files)
    (stages : List Stage) (result : Except DeployError α) (files' : Files) : Prop where
  run : ∀ begun, part.run.run ⟨files, begun⟩ = (result, ⟨files', begun ++ stages⟩)
  course : Course settings tools stages files (result.map fun _ => ()) files'

/-- Whether a part of a deployment carries out a plan, from files of which `pre` holds to a result
and files of which `post` does. -/
def CarriesOut (settings : Settings) (tools : Tools) (source program : String)
    (pre : Files → Prop) (part : Deploying α) (plan : List Task) (post : α → Files → Prop) : Prop :=
  ∀ files, pre files → ∃ stages result files', Runs settings tools part files stages result files' ∧
    stages.map Stage.task <+: plan ∧
    (∀ a, result = .ok a → stages.map Stage.task = plan ∧ post a files') ∧
    ∀ stage ∈ stages, FindsProgram source program stage

variable {pre : Files → Prop} {mid : α → Files → Prop} {post : β → Files → Prop}

theorem carriesOut_pure {post : α → Files → Prop} (a : α) (h : ∀ files, pre files → post a files) :
    CarriesOut settings tools source program pre (pure a) [] post := by
  intro files hpre
  refine ⟨[], .ok a, files, ⟨fun begun => ?_, .done files⟩, List.prefix_rfl, ?_, by simp⟩
  · rw [List.append_nil]
    rfl
  · rintro _ ⟨⟩
    exact ⟨rfl, h files hpre⟩

theorem run_bind_ok {part : Deploying α} {next : α → Deploying β} {progress progress' : Progress}
    {a : α} (h : part.run.run progress = (.ok a, progress')) :
    (part >>= next).run.run progress = (next a).run.run progress' := by
  rw [ExceptT.run_bind, StateT.run_bind, h]
  rfl

theorem run_bind_error {part : Deploying α} {next : α → Deploying β}
    {progress progress' : Progress} {error : DeployError}
    (h : part.run.run progress = (.error error, progress')) :
    (part >>= next).run.run progress = (.error error, progress') := by
  rw [ExceptT.run_bind, StateT.run_bind, h]
  rfl

/-- Two parts in sequence carry out their plans in sequence. -/
theorem CarriesOut.bind {part : Deploying α} {next : α → Deploying β} {plan plan' : List Task}
    (h : CarriesOut settings tools source program pre part plan mid)
    (hnext : ∀ a, CarriesOut settings tools source program (mid a) (next a) plan' post) :
    CarriesOut settings tools source program pre (part >>= next) (plan ++ plan') post := by
  intro files hpre
  obtain ⟨stages, result, files', ⟨hrun, hcourse⟩, hprefix, hok, hfinds⟩ := h files hpre
  cases result with
  | error error =>
    -- the second part is not begun
    refine ⟨stages, .error error, files', ⟨fun begun => run_bind_error (hrun begun), hcourse⟩, ?_,
      by simp, hfinds⟩
    exact hprefix.trans (List.prefix_append plan plan')
  | ok a =>
    obtain ⟨htasks, hmid⟩ := hok a rfl
    obtain ⟨stages', result', files'', ⟨hrun', hcourse'⟩, hprefix', hok', hfinds'⟩ :=
      hnext a files' hmid
    refine ⟨stages ++ stages', result', files'', ⟨fun begun => ?_, hcourse.append hcourse'⟩, ?_,
      ?_, ?_⟩
    · rw [run_bind_ok (hrun begun), ← List.append_assoc]
      exact hrun' (begun ++ stages)
    · rw [List.map_append, htasks]
      exact (List.prefix_append_right_inj plan).2 hprefix'
    · intro b hb
      obtain ⟨htasks', hpost⟩ := hok' b hb
      rw [List.map_append, htasks, htasks']
      exact ⟨rfl, hpost⟩
    · intro stage hstage
      exact (List.mem_append.1 hstage).elim (hfinds stage) (hfinds' stage)

/-- A part that is one stage carries out the task of that stage. -/
theorem carriesOut_stage {part : Deploying Unit} {task : Task} {post : Unit → Files → Prop}
    (h : ∀ files, pre files → ∃ stage result files', stage.task = task ∧
      (∀ begun, part.run.run ⟨files, begun⟩ = (result, ⟨files', begun ++ [stage]⟩)) ∧
      stage.Does settings tools files result files' ∧ (result = .ok () → post () files') ∧
      FindsProgram source program stage) :
    CarriesOut settings tools source program pre part [task] post := by
  intro files hpre
  obtain ⟨stage, result, files', rfl, hrun, hdoes, hpost, hfinds⟩ := h files hpre
  have hunit : (result.map fun _ => ()) = result := by cases result <;> rfl
  refine ⟨[stage], result, files', ⟨hrun, hunit.symm ▸ hdoes.course⟩, List.prefix_rfl, ?_, ?_⟩
  · rintro _ rfl
    exact ⟨rfl, hpost rfl⟩
  · simpa using hfinds

/-! ### The single parts -/

/-- An operation on files that is taken over leaves its files, and its error if it failed. -/
theorem run_finish {ε : Type} (cause : ε → DeployError) (outcome : Except ε Unit × Files)
    (progress : Progress) :
    (finish cause outcome).run.run progress =
      (outcome.1.mapError cause, { progress with files := outcome.2 }) := by
  obtain ⟨_ | _, files⟩ := outcome <;> rfl

theorem parentTasks_eq (path : String) :
    parentTasks path = (parentToMake? path).toList.map .makeDirectory := by
  unfold parentTasks parentToMake?
  cases Path.parent? path with
  | none => rfl
  | some parent => by_cases hempty : parent = "" <;> simp [hempty, Option.filter]

theorem carriesOut_makeParent (settings : Settings) (tools : Tools) (source program path : String) :
    CarriesOut settings tools source program (fun _ => True) (makeParent path) (parentTasks path)
      fun _ _ => True := by
  rw [parentTasks_eq]
  cases hparent : parentToMake? path with
  | none =>
    have hnothing : makeParent path = pure () := by rw [makeParent, hparent]
    rw [hnothing]
    exact carriesOut_pure () fun _ _ => trivial
  | some parent =>
    have hrun (files : Files) (begun : List Stage) :
        (makeParent path).run.run ⟨files, begun⟩ =
          (finish (fun fault => .unwritable ⟨parent, fault⟩)
            (files.makeDirectories parent)).run.run ⟨files, begun ++ [.makeDirectory parent]⟩ := by
      rw [makeParent, hparent]
      rfl
    refine carriesOut_stage fun files _ => ?_
    rcases hmake : files.makeDirectories parent with ⟨outcome, files'⟩
    refine ⟨.makeDirectory parent, outcome.mapError fun fault => .unwritable ⟨parent, fault⟩,
      files', rfl, fun begun => ?_, ?_, fun _ => trivial, trivial⟩
    · rw [hrun, hmake, run_finish]
    · cases outcome with
      | ok _ => exact .made hmake
      | error fault => exact .unmade hmake

/-- A program that was written is found. -/
theorem carriesOut_write (settings : Settings) (tools : Tools) (source program : String) :
    CarriesOut settings tools source program (fun _ => True) (write source program)
      [.write source program] fun _ files => files.read source = .ok program.toUTF8 := by
  have hrun (files : Files) (begun : List Stage) :
      (write source program).run.run ⟨files, begun⟩ =
        (finish (fun fault => .unwritable ⟨source, fault⟩)
          (files.write source program.toUTF8)).run.run
            ⟨files, begun ++ [.write source program]⟩ := rfl
  refine carriesOut_stage fun files _ => ?_
  rcases hwrite : files.write source program.toUTF8 with ⟨outcome, files'⟩
  refine ⟨.write source program, outcome.mapError fun fault => .unwritable ⟨source, fault⟩, files',
    rfl, fun begun => ?_, ?_, fun hok => ?_, trivial⟩
  · rw [hrun, hwrite, run_finish]
  · cases outcome with
    | ok _ => exact .written hwrite
    | error fault => exact .unwritten hwrite
  · cases outcome with
    | ok _ => exact Files.read_of_write hwrite
    | error fault => cases hok

theorem carriesOut_build (settings : Settings) (tools : Tools) (source program binary : String) :
    CarriesOut settings tools source program (fun files => files.read source = .ok program.toUTF8)
      (build tools source binary) [.build source binary] fun _ _ => True := by
  have hrun (files : Files) (begun : List Stage) :
      (build tools source binary).run.run ⟨files, begun⟩ =
        (finish .tool (tools.build files source binary)).run.run
          ⟨files, begun ++ [.build source binary files]⟩ := rfl
  refine carriesOut_stage fun files hread => ?_
  rcases hbuild : tools.build files source binary with ⟨outcome, files'⟩
  refine ⟨.build source binary files, outcome.mapError .tool, files', rfl, fun begun => ?_, ?_,
    fun _ => trivial, ⟨rfl, hread⟩⟩
  · rw [hrun, hbuild, run_finish]
  · cases outcome with
    | ok _ => exact .built hbuild
    | error failure => exact .unbuilt hbuild

theorem carriesOut_upload (settings : Settings) (tools : Tools) (source program binary : String)
    (device : Option String) :
    CarriesOut settings tools source program (fun _ => True) (upload tools binary device)
      (device.toList.map (.upload binary)) fun _ _ => True := by
  cases device with
  | none => exact carriesOut_pure () fun _ _ => trivial
  | some device =>
    have hrun (files : Files) (begun : List Stage) :
        (upload tools binary (some device)).run.run ⟨files, begun⟩ =
          (finish .tool (tools.upload files binary device)).run.run
            ⟨files, begun ++ [.upload binary device files]⟩ := rfl
    refine carriesOut_stage fun files _ => ?_
    rcases hupload : tools.upload files binary device with ⟨outcome, files'⟩
    refine ⟨.upload binary device files, outcome.mapError .tool, files', rfl, fun begun => ?_, ?_,
      fun _ => trivial, trivial⟩
    · rw [hrun, hupload, run_finish]
    · cases outcome with
      | ok _ => exact .uploaded hupload
      | error failure => exact .notUploaded hupload

/-! ### All parts in sequence -/

/-- What comes after the program. -/
def afterCompile (settings : Settings) (tools : Tools) (program : String) : Deploying Product :=
  makeParent settings.output.source >>= fun _ =>
    write settings.output.source program >>= fun _ =>
      build tools settings.output.source settings.output.binary >>= fun _ =>
        upload tools settings.output.binary settings.device >>= fun _ =>
          pure ⟨settings.output.source, settings.output.binary, settings.device⟩

theorem all_eq (settings : Settings) (tools : Tools) (input : String) :
    all settings tools input = compile settings input >>= afterCompile settings tools := rfl

theorem carriesOut_afterCompile (settings : Settings) (tools : Tools) (program : String) :
    CarriesOut settings tools settings.output.source program (fun _ => True)
      (afterCompile settings tools program) (settings.plan program) fun product _ =>
        product = ⟨settings.output.source, settings.output.binary, settings.device⟩ := by
  have hproduct : CarriesOut settings tools settings.output.source program (fun _ => True)
      (pure ⟨settings.output.source, settings.output.binary, settings.device⟩) []
      fun (product : Product) _ =>
        product = ⟨settings.output.source, settings.output.binary, settings.device⟩ :=
    carriesOut_pure _ fun _ _ => rfl
  have hall := (carriesOut_makeParent settings tools settings.output.source program
    settings.output.source).bind fun _ =>
      (carriesOut_write settings tools settings.output.source program).bind fun _ =>
        (carriesOut_build settings tools settings.output.source program settings.output.binary).bind
          fun _ => (carriesOut_upload settings tools settings.output.source program
            settings.output.binary settings.device).bind fun _ => hproduct
  rwa [List.append_nil] at hall

theorem run_compile (settings : Settings) (input : String) (progress : Progress) :
    (compile settings input).run.run progress =
      ((Program.ofFile progress.files input settings.layout.indentWidth).mapError .compile,
        { progress with stages := progress.stages ++ [.compile input] }) := by
  have hbegin : (begin (.compile input)).run.run progress =
      (.ok (), { progress with stages := progress.stages ++ [.compile input] }) := rfl
  have hget (progress : Progress) :
      (get : Deploying Progress).run.run progress = (.ok progress, progress) := rfl
  rw [compile, run_bind_ok hbegin, run_bind_ok (hget _)]
  dsimp only
  cases Program.ofFile progress.files input settings.layout.indentWidth <;> rfl

end Deploying

/-! ## Whole deployments -/

section Deploy

variable {input : String}

/-- A document that does not compile is all that a deployment looks at. -/
theorem deploy_of_error {error : CompileError}
    (h : Program.ofFile files input settings.layout.indentWidth = .error error) :
    deploy settings tools files input = ⟨.error (.compile error), [.compile input], files⟩ := by
  have hcompile := Deploying.run_compile settings input ⟨files, []⟩
  dsimp only at hcompile
  rw [h] at hcompile
  rw [deploy, Deploying.all_eq, Deploying.run_bind_error hcompile]
  rfl

/-- With a program, a deployment goes on to carry out its plan. -/
theorem deploy_of_ok (tools : Tools)
    (h : Program.ofFile files input settings.layout.indentWidth = .ok program) :
    ∃ stages result files', deploy settings tools files input =
        ⟨result, .compile input :: stages, files'⟩ ∧
      Course settings tools stages files (result.map fun _ => ()) files' ∧
      stages.map Stage.task <+: settings.plan program ∧
      (∀ product, result = .ok product → stages.map Stage.task = settings.plan program ∧
        product = ⟨settings.output.source, settings.output.binary, settings.device⟩) ∧
      ∀ stage ∈ stages, Deploying.FindsProgram settings.output.source program stage := by
  have hcompile := Deploying.run_compile settings input ⟨files, []⟩
  dsimp only at hcompile
  rw [h] at hcompile
  obtain ⟨stages, result, files', ⟨hrun, hcourse⟩, hprefix, hok, hfinds⟩ :=
    Deploying.carriesOut_afterCompile settings tools program files trivial
  refine ⟨stages, result, files', ?_, hcourse, hprefix, hok, hfinds⟩
  rw [deploy, Deploying.all_eq, Deploying.run_bind_ok hcompile, hrun]
  rfl

/-- What a file compiles to is what its text compiles to. -/
theorem ofFile_of_readText {text : String} {width : UInt64} (h : files.readText input = .ok text) :
    Program.ofFile files input width = Program.ofText text width := by
  rw [Program.ofFile, Graph.ofFile, h]
  rfl

theorem ofFile_of_unreadable {error : FileError} {width : UInt64}
    (h : files.readText input = .error error) :
    Program.ofFile files input width = .error (.load (.unreadable error)) := by
  rw [Program.ofFile, Graph.ofFile, h]
  rfl

/-- What is asked of a deployment, whatever the files are and whatever the tools do. -/
structure Deployment.Orderly (settings : Settings) (tools : Tools) (files : Files) (input : String)
    (deployment : Deployment) : Prop where
  /-- Nothing happens for a document that cannot be read. -/
  unread : ∀ error, files.readText input = .error error →
    deployment = ⟨.error (.compile (.load (.unreadable error))), [.compile input], files⟩
  /-- Nothing happens for a document that does not load or whose graph is not valid. -/
  refused : ∀ text error, files.readText input = .ok text →
    Program.ofText text settings.layout.indentWidth = .error error →
    deployment = ⟨.error (.compile error), [.compile input], files⟩
  /-- The stages are those of the plan, from its beginning, and all of them if there is a
  product. -/
  planned : ∀ text program, files.readText input = .ok text →
    Program.ofText text settings.layout.indentWidth = .ok program →
    deployment.stages.map Stage.task <+: .compile input :: settings.plan program ∧
      ((∃ product, deployment.result = .ok product) →
        deployment.stages.map Stage.task = .compile input :: settings.plan program)
  /-- Each stage is begun when the one before has succeeded, and on the files that this one left.
  The product is the one that was set, and there is one unless a stage has failed; then its error
  is the result. -/
  course : ∃ outcome, Course settings tools deployment.stages files outcome deployment.files ∧
    deployment.result = outcome.map fun _ =>
      ⟨settings.output.source, settings.output.binary, settings.device⟩
  /-- A tool that is called to build a binary finds the program in its source. -/
  finds : ∀ text program, files.readText input = .ok text →
    Program.ofText text settings.layout.indentWidth = .ok program →
    ∀ source binary found, .build source binary found ∈ deployment.stages →
      found.read source = .ok program.toUTF8

/-- **The course of a deployment.** A deployment compiles the document, makes the directory that the
source is to lie in, writes the source, has the binary built and has it loaded, in this order, and
stops at the first of these that fails. -/
theorem deploy_orderly (settings : Settings) (tools : Tools) (files : Files) (input : String) :
    (deploy settings tools files input).Orderly settings tools files input := by
  constructor
  case unread => exact fun error h => deploy_of_error (ofFile_of_unreadable h)
  case refused => exact fun text error htext h => deploy_of_error (ofFile_of_readText htext ▸ h)
  case planned =>
    intro text program htext h
    obtain ⟨stages, result, files', hdeploy, -, hprefix, hok, -⟩ :=
      deploy_of_ok tools (ofFile_of_readText htext ▸ h)
    rw [hdeploy]
    refine ⟨List.cons_prefix_cons.2 ⟨rfl, hprefix⟩, ?_⟩
    rintro ⟨product, hproduct⟩
    exact congrArg (Task.compile input :: ·) (hok product hproduct).1
  case course =>
    cases hprogram : Program.ofFile files input settings.layout.indentWidth with
    | error error =>
      rw [deploy_of_error hprogram]
      exact ⟨_, .failed (.refused hprogram), rfl⟩
    | ok program =>
      obtain ⟨stages, result, files', hdeploy, hcourse, -, hok, -⟩ :=
        deploy_of_ok tools hprogram
      rw [hdeploy]
      refine ⟨_, .went (.compiled hprogram) hcourse, ?_⟩
      cases result with
      | error error => rfl
      | ok product => exact congrArg Except.ok (hok product rfl).2
  case finds =>
    intro text program htext h source binary found hmem
    obtain ⟨stages, result, files', hdeploy, -, -, -, hfinds⟩ :=
      deploy_of_ok tools (ofFile_of_readText htext ▸ h)
    rw [hdeploy] at hmem
    rcases List.mem_cons.1 hmem with hcompile | hmem
    · cases hcompile
    · obtain ⟨rfl, hread⟩ := hfinds _ hmem
      exact hread

end Deploy

end BlockDiagram
