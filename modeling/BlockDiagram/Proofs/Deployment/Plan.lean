/-
Plans carried out.

Once there is a program, nothing about a deployment is open but what the tools do, so carrying out
the plan is a function of the files. A task yields a stage and files, or an error that ends it all,
and a plan in two parts is carried out by carrying out the parts in sequence. The course of a
deployment is told here as the value of this function, which makes it possible to compare two
deployments, and to cut one where the program has been delivered and the tools take over.
-/
import BlockDiagram.Proofs.Deployment.Course

set_option autoImplicit false

namespace BlockDiagram

/-! ## Outcomes -/

/-- What has come of a part of a plan: the stages that were begun, whether all went well, and the
files that are left. -/
structure Outcome where
  stages : List Stage
  result : Except DeployError Unit
  files : Files

/-- Go on with the files that are left, if all went well. -/
def Outcome.andThen (outcome : Outcome) (next : Files → Outcome) : Outcome :=
  match outcome.result with
  | .error _ => outcome
  | .ok () =>
    let following := next outcome.files
    ⟨outcome.stages ++ following.stages, following.result, following.files⟩

/-- What comes of a single task. -/
def Task.outcome (settings : Settings) (tools : Tools) (files : Files) : Task → Outcome
  | .compile input =>
    ⟨[.compile input], (Program.ofFile files input settings.layout.indentWidth).map (fun _ => ())
      |>.mapError .compile, files⟩
  | .makeDirectory path =>
    let made := files.makeDirectories path
    ⟨[.makeDirectory path], made.1.mapError fun fault => .unwritable ⟨path, fault⟩, made.2⟩
  | .write path program =>
    let written := files.write path program.toUTF8
    ⟨[.write path program], written.1.mapError fun fault => .unwritable ⟨path, fault⟩, written.2⟩
  | .build source binary =>
    let built := tools.build files source binary
    ⟨[.build source binary files], built.1.mapError .tool, built.2⟩
  | .upload binary device =>
    let uploaded := tools.upload files binary device
    ⟨[.upload binary device files], uploaded.1.mapError .tool, uploaded.2⟩

/-- What comes of a plan. -/
def carryOut (settings : Settings) (tools : Tools) : List Task → Files → Outcome
  | [], files => ⟨[], .ok (), files⟩
  | task :: rest, files =>
    (task.outcome settings tools files).andThen (carryOut settings tools rest)

variable {settings : Settings} {tools : Tools} {files files' files'' : Files} {source : String}
  {program input : String} {plan plan' : List Task} {stages : List Stage}

theorem Outcome.andThen_assoc (outcome : Outcome) (next next' : Files → Outcome) :
    (outcome.andThen next).andThen next' =
      outcome.andThen fun files => (next files).andThen next' := by
  obtain ⟨stages, _ | _, files⟩ := outcome
  · rfl
  · rcases hnext : next files with ⟨stages', _ | _, files'⟩ <;> simp [andThen, hnext]

/-- A plan in two parts is carried out part by part. -/
theorem carryOut_append (plan plan' : List Task) (files : Files) :
    carryOut settings tools (plan ++ plan') files =
      (carryOut settings tools plan files).andThen (carryOut settings tools plan') := by
  induction plan generalizing files with
  | nil => rfl
  | cons task rest ih =>
    rw [List.cons_append, carryOut, carryOut, Outcome.andThen_assoc]
    exact congrArg _ (funext ih)

theorem carryOut_singleton (task : Task) (files : Files) :
    carryOut settings tools [task] files = task.outcome settings tools files := by
  rcases houtcome : task.outcome settings tools files with ⟨stages, _ | _, files'⟩ <;>
    simp [carryOut, houtcome, Outcome.andThen]

/-- A plan in two parts is carried out to its end when the first part is, and then the second. -/
theorem carryOut_append_eq_ok_iff :
    carryOut settings tools (plan ++ plan') files = ⟨stages, .ok (), files''⟩ ↔
      ∃ before after files', carryOut settings tools plan files = ⟨before, .ok (), files'⟩ ∧
        carryOut settings tools plan' files' = ⟨after, .ok (), files''⟩ ∧
          stages = before ++ after := by
  rw [carryOut_append]
  rcases carryOut settings tools plan files with ⟨before, _ | _, files'⟩
  · -- a first part that failed is all that has come of the two
    simp [Outcome.andThen]
  · constructor
    · intro h
      rcases hafter : carryOut settings tools plan' files' with ⟨after, result, files⟩
      obtain ⟨rfl, rfl, rfl⟩ : before ++ after = stages ∧ result = .ok () ∧ files = files'' := by
        simpa [Outcome.andThen, hafter] using h
      exact ⟨before, after, files', rfl, hafter, rfl⟩
    · rintro ⟨_, after, _, ⟨⟩, hafter, rfl⟩
      simp [Outcome.andThen, hafter]

/-! ## Courses as outcomes -/

/-- What a stage does is what comes of its task. -/
theorem Stage.Does.outcome_eq {stage : Stage} {result : Except DeployError Unit}
    (h : stage.Does settings tools files result files') :
    stage.task.outcome settings tools files = ⟨[stage], result, files'⟩ := by
  cases h <;> rename_i h <;> simp only [Stage.task, Task.outcome, h] <;> rfl

/-- A course that follows a plan from its beginning, and to its end if all goes well, is what comes
of the plan. -/
theorem Course.carryOut_eq {result : Except DeployError Unit}
    (h : Course settings tools stages files result files')
    (hle : stages.map Stage.task <+: plan)
    (hok : result = .ok () → stages.map Stage.task = plan) :
    carryOut settings tools plan files = ⟨stages, result, files'⟩ := by
  -- each stage takes up the first task that is left of the plan
  induction h generalizing plan with
  | done files =>
    rw [← hok rfl]
    rfl
  | failed hstage =>
    obtain ⟨rest, rfl⟩ := hle
    simp [carryOut, hstage.outcome_eq, Outcome.andThen]
  | went hstage _ ih =>
    obtain ⟨rest, rfl⟩ := hle
    rw [List.map_cons, List.cons_append, carryOut, hstage.outcome_eq]
    have hrest := ih (List.prefix_append _ rest) fun h => (List.cons.inj (hok h)).2
    simp [Outcome.andThen, hrest]

/-! ## Deployments as outcomes -/

/-- What a deployment produces if all goes well. -/
def Settings.product (settings : Settings) : Product :=
  ⟨settings.output.source, settings.output.binary, settings.device⟩

/-- With a program, a deployment is what comes of its plan. -/
theorem deploy_eq_carryOut (tools : Tools)
    (h : Program.ofFile files input settings.layout.indentWidth = .ok program) :
    deploy settings tools files input =
      ⟨(carryOut settings tools (settings.plan program) files).result.map fun _ => settings.product,
        .compile input :: (carryOut settings tools (settings.plan program) files).stages,
        (carryOut settings tools (settings.plan program) files).files⟩ := by
  obtain ⟨stages, result, files', hdeploy, hcourse, hle, hok, -⟩ := deploy_of_ok tools h
  have hcarry : carryOut settings tools (settings.plan program) files =
      ⟨stages, result.map fun _ => (), files'⟩ := by
    refine hcourse.carryOut_eq hle fun hresult => ?_
    cases result with
    | error error => cases hresult
    | ok product => exact (hok product rfl).1
  rw [hdeploy, hcarry]
  cases result with
  | error error => rfl
  | ok product =>
    rw [(hok product rfl).2]
    rfl

/-! ## Delivery and tools -/

/-- The tasks by which the program gets to the place of the source. -/
def deliveryTasks (source program : String) : List Task :=
  parentTasks source ++ [.write source program]

/-- The tasks that are left to tools. -/
def Settings.toolTasks (settings : Settings) : List Task :=
  .build settings.output.source settings.output.binary ::
    settings.device.toList.map (.upload settings.output.binary)

theorem Settings.plan_eq (settings : Settings) (program : String) :
    settings.plan program =
      deliveryTasks settings.output.source program ++ settings.toolTasks := by
  rw [plan, deliveryTasks, List.append_assoc]
  rfl

theorem carryOut_parentTasks (settings : Settings) (tools : Tools) (path : String) (files : Files) :
    carryOut settings tools (parentTasks path) files =
      match Deploying.parentToMake? path with
      | none => ⟨[], .ok (), files⟩
      | some parent => (Task.makeDirectory parent).outcome settings tools files := by
  rw [Deploying.parentTasks_eq]
  cases Deploying.parentToMake? path with
  | none => rfl
  | some parent => exact carryOut_singleton _ files

end BlockDiagram
