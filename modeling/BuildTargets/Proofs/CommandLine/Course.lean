import BuildTargets.Proofs.CommandLine.Listing

/-!
# Courses of a command line

The program hands at most one command over to be executed, and does nothing of its own after that.
A course says how a command line comes to its end: with a result, or with a command that is handed
over in some world. Who executes it is left open, so a course tells what the program itself does.
Command lines that only read take a course that ends with the files that were there.
-/

namespace BuildTargets.CommandLine

/-! ## Courses -/

abbrev Executor := Command → World → Except Fault Outcome × World

/-- How a request comes to its end. -/
inductive Course where
  | ends (result : Result)
  | hands (command : Command) (world : World)

namespace Course

/-- The world that a course leads to, before a command that is handed over is executed. -/
def world : Course → World
  | ends result => result.2
  | hands _ world => world

def result (executor : Executor) : Course → Result
  | ends result => result
  | hands command world =>
    match executor command world with
    | (.error cause, world) => (.error (.fault cause), world)
    | (.ok outcome, world) => (.ok (App.exitCode outcome), world)

end Course

def App.withExecutor (app : App) (executor : Executor) : App :=
  { app with launcher := { app.launcher with executor } }

/-- A request takes a course, whatever executes commands. -/
def App.Takes (app : App) (request : Request) (world : World) (course : Course) : Prop :=
  ∀ executor, (app.withExecutor executor).handle request world = course.result executor

/-! ## Runs of the program -/

def ending (verbosity : Verbosity) (result : Result) : Ending :=
  let world := result.2
  let told := world.remarks.reverse.filter fun remark => verbosity.tells remark.level
  match result.1 with
  | .ok code => ⟨code, world.output, world.errors, told, world.files⟩
  | .error failure => ⟨1, world.output, world.errors ++ failure.report, told, world.files⟩

def runWith (executor : Executor) (arguments : List String) (environment : Environment)
    (files : FileSystem) : Ending :=
  match readArguments arguments with
  | .error .usage => ⟨2, "", "usage", [], files⟩
  | .error .help => ⟨0, "", "usage", [], files⟩
  | .error .version => ⟨0, versionLine, "", [], files⟩
  | .ok invocation =>
    match App.start invocation environment.folder files with
    | .error failure => ⟨1, "", failure.report, [], files⟩
    | .ok app =>
      ending (if invocation.verbose then .all else environment.verbosity)
        ((app.withExecutor executor).handle invocation.request ⟨files, "", "", []⟩)

def Performs (arguments : List String) (environment : Environment) (files : FileSystem)
    (course : Course) : Prop :=
  ∃ verbosity, ∀ executor,
    runWith executor arguments environment files = ending verbosity (course.result executor)

variable {arguments : List String} {environment : Environment} {files : FileSystem}
  {invocation : Invocation} {app : App}

theorem withExecutor_of_start (started : App.start invocation environment.folder files = .ok app) :
    app.withExecutor executor = app := by
  obtain ⟨settings, configPath, rfl⟩ := start_eq_ok started
  rfl

theorem runWith_executor : runWith executor arguments environment files =
    run arguments environment files := by
  unfold runWith run
  cases readArguments arguments with
  | error refusal => cases refusal <;> rfl
  | ok invocation =>
    dsimp only
    cases started : App.start invocation environment.folder files with
    | error failure => rfl
    | ok app =>
      dsimp only
      rw [withExecutor_of_start started]
      rcases app.handle invocation.request ⟨files, "", "", []⟩ with ⟨_ | _, world⟩ <;> rfl

/-- The launcher of a project keeps the record of the last run in the folder for state. -/
theorem launcher_of_start (started : App.start invocation environment.folder files = .ok app) :
    let here := FileSystem.pathTo files.workingDirectory
    let project := (Path.absolute? here invocation.project).getD here
    app.launcher =
      App.launcherIn (App.stateFolder project environment.folder) app.workspace.settings := by
  obtain ⟨settings, configPath, rfl⟩ := start_eq_ok started
  rfl

theorem output_of_performs {result : Result}
    (performs : Performs arguments environment files (.ends result)) :
    (run arguments environment files).output = result.2.output := by
  obtain ⟨verbosity, eq⟩ := performs
  rw [← runWith_executor, eq executor]
  obtain ⟨_ | _, world⟩ := result <;> rfl

theorem performs_of_takes {course : Course} (asks : readArguments arguments = .ok invocation)
    (started : App.start invocation environment.folder files = .ok app)
    (takes : app.Takes invocation.request ⟨files, "", "", []⟩ course) :
    Performs arguments environment files course := by
  refine ⟨if invocation.verbose then .all else environment.verbosity, fun executor => ?_⟩
  rw [← takes executor, runWith, asks]
  dsimp only
  rw [started]

/-- A command line that is refused, or that opens no project, executes nothing and leaves the files
alone. -/
theorem performs_of_refused
    (refused : ∀ invocation app, readArguments arguments = .ok invocation →
      App.start invocation environment.folder files ≠ .ok app) :
    ∃ result : Result, Performs arguments environment files (.ends result) ∧
      result.2.files = files := by
  have ends : ∃ result : Result, result.2.files = files ∧
      ∀ executor, runWith executor arguments environment files = ending .all result := by
    cases asks : readArguments arguments with
    | error refusal =>
      cases refusal with
      | usage => exact ⟨(.ok 2, ⟨files, "", "usage", []⟩), rfl, fun _ => by rw [runWith, asks]; rfl⟩
      | help => exact ⟨(.ok 0, ⟨files, "", "usage", []⟩), rfl, fun _ => by rw [runWith, asks]; rfl⟩
      | version =>
        exact ⟨(.ok 0, ⟨files, versionLine, "", []⟩), rfl, fun _ => by rw [runWith, asks]; rfl⟩
    | ok invocation =>
      cases started : App.start invocation environment.folder files with
      | error failure =>
        refine ⟨(.error failure, ⟨files, "", "", []⟩), rfl, fun executor => ?_⟩
        rw [runWith, asks]
        dsimp only [ending]
        rw [started, String.empty_append]
        rfl
      | ok app => exact absurd started (refused invocation app asks)
  obtain ⟨result, same, eq⟩ := ends
  exact ⟨result, ⟨.all, eq⟩, same⟩

/-! ## Command lines that only read -/

def Request.Reads : Request → Prop
  | .list _ _ | .targets _ | .lenses _ | .config false | .included _ _ none _ _ => True
  | _ => False

namespace App

@[simp] theorem withExecutor_workspace (executor : Executor) :
    (app.withExecutor executor).workspace = app.workspace := rfl

@[simp] theorem withExecutor_openFile (executor : Executor) :
    (app.withExecutor executor).openFile = app.openFile := rfl

theorem list_withExecutor (executor : Executor) (several : Bool) (active : Option Path)
    (runners : List String) (world : World) :
    (app.withExecutor executor).list several active runners world =
      app.list several active runners world := by
  induction runners generalizing world with
  | nil => rfl
  | cons runner runners ih =>
    simp only [list, ih]
    rfl

section Reading

variable (source : app.workspace.source = .ofFiles World.files World.note)

include source

theorem looks_walker : app.workspace.walker.source.Looks
    fun world => (world.files, world.output, world.errors) := looks_world source

theorem openFile_prints (file : Path) (world : World) :
    world.Prints "" (app.openFile file world).2 := by
  have loaded := World.prints_of_looks (Workspace.open?_looks (looks_world source) file) world
  rw [openFile]
  generalize app.workspace.open? file world = answer at loaded ⊢
  obtain ⟨_ | _ | _, later⟩ := answer <;> exact loaded

theorem list_prints (several : Bool) (active : Option Path) (runners : List String)
    (world : World) : ∃ text, world.Prints text (app.list several active runners world).2 := by
  induction runners generalizing world with
  | nil => exact ⟨"", .rfl⟩
  | cons runner runners ih =>
    cases answer : app.scan active world.files runner with
    | error cause =>
      obtain ⟨later, prints, eq⟩ := list_of_error source several runners world answer
      obtain ⟨text, further⟩ := ih later
      rw [eq]
      split
      · exact ⟨_, prints.trans further⟩
      · exact ⟨_, prints⟩
    | ok found =>
      obtain ⟨later, prints, eq⟩ := list_of_ok source several runners world answer
      obtain ⟨text, further⟩ := ih later
      rw [eq]
      exact ⟨_, prints.trans further⟩

theorem targets_prints (file : Path) (world : World) :
    ∃ text, world.Prints text (app.targets file world).2 := by
  have opened := openFile_prints source file world
  rw [targets]
  generalize app.openFile file world = answer at opened ⊢
  obtain ⟨failure | targetFile, later⟩ := answer
  · exact ⟨_, opened⟩
  · have walked := World.prints_of_looks (Walker.targetsThrough_looks (looks_walker source)
      targetFile targetFile.edges (fun _ => true) none)
    dsimp only
    split
    · exact ⟨_, (((opened.trans (World.prints_printLines _ _)).trans (walked _)).trans
        (World.prints_printLines _ _)).trans (World.prints_report _ _)⟩
    · exact ⟨_, ((opened.trans (World.prints_printLines _ _)).trans (walked _)).trans
        (World.prints_printLines _ _)⟩

theorem included_prints (file : Path) (line : Nat) (action : Action) (print : Bool)
    (world : World) :
    ∃ text, world.Prints text (app.included file line none action print world).2 := by
  have opened := openFile_prints source file world
  rw [included]
  generalize app.openFile file world = answer at opened ⊢
  obtain ⟨failure | targetFile, later⟩ := answer
  · exact ⟨_, opened⟩
  · cases line with
    | zero => exact ⟨_, opened⟩
    | succ number =>
      have walked := World.prints_of_looks
        (Walker.targetsAtLine_looks (looks_walker source) targetFile number) later
      dsimp only
      split
      · exact ⟨_, ((opened.trans walked).trans (World.prints_note _ _)).trans
          (World.prints_printLines _ _)⟩
      · exact ⟨_, (opened.trans walked).trans (World.prints_printLines _ _)⟩

theorem lenses_prints (file : Path) (world : World) :
    ∃ text, world.Prints text (app.lenses file world).2 := by
  have opened := openFile_prints source file world
  rw [lenses]
  dsimp only
  split
  · generalize app.openFile file world = answer at opened ⊢
    obtain ⟨failure | targetFile, later⟩ := answer
    · exact ⟨_, opened⟩
    · have walked := World.prints_of_looks (Walker.anchorsFor_looks (looks_walker source)
        targetFile targetFile.edges)
      exact ⟨_, ((opened.trans (World.prints_printLines _ _)).trans (walked _)).trans
        (World.prints_printLines _ _)⟩
  · exact ⟨_, .rfl⟩

/-- A request that only reads comes to an end by itself, and all that it does is print. -/
theorem takes_of_reads {request : Request} (reads : request.Reads) (world : World) :
    ∃ result : Result, app.Takes request world (.ends result) ∧
      ∃ text, world.Prints text result.2 := by
  refine ⟨app.handle request world, fun executor => ?_, ?_⟩
  · match request, reads with
    | .list runner active, _ => exact list_withExecutor executor _ active _ world
    | .targets file, _ => rfl
    | .lenses file, _ => rfl
    | .config false, _ => rfl
    | .included file line none dryRun print, _ => rfl
  · match request, reads with
    | .list runner active, _ => exact list_prints source _ active _ world
    | .targets file, _ => exact targets_prints source file world
    | .lenses file, _ => exact lenses_prints source file world
    | .config false, _ =>
      exact ⟨_, ⟨.refl _, String.append_assoc, .refl _⟩⟩
    | .included file line none dryRun print, _ =>
      exact included_prints source file line (actionOf dryRun) print world

end Reading

end App

end BuildTargets.CommandLine
