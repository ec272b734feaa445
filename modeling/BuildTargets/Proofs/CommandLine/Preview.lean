import BuildTargets.Proofs.CommandLine.Course
import BuildTargets.Proofs.FileSystem.Kept
import BuildTargets.Proofs.Launch.Store

/-!
# Previews, and files that command lines leave alone

A request to launch a target prints the command or hands it over. Both look for the target in the
same way, so what is printed is what is handed over, and one fails where the other does. Besides
new files, a command line writes only the record of a run, and with `config --init` a configuration
where there is none. The second can go wrong: whether there is one is asked before the directories
above it are made, and a path with `..` in it may lead to a file only after that.
-/

namespace BuildTargets

/-! ## The last target -/

section Restore

variable {σ : Type} {load : Path → σ → Except Fault Document × σ}
  (reads : ∀ path state, (load path state).2 = state) (grammars : Grammars)

include reads

theorem RunRecord.restore_state (record : RunRecord) (state : σ) :
    (record.restore load grammars state).2 = state := by
  have same : ∀ {path answer later}, load path state = (answer, later) → later = state :=
    fun read => by rw [← reads _ state, read]
  unfold restore
  split
  · rfl
  · split
    · next read => exact same read
    · next read =>
      obtain rfl := same read
      split
      · rfl
      · rfl
      · split
        · next read => exact same read
        · next read =>
          obtain rfl := same read
          split
          · rfl
          · split
            · next read => exact same read
            · next read => exact same read

theorem Launcher.lastTarget_state {launcher : Launcher σ} {state : σ}
    (stored : (launcher.stored state).2 = state) :
    (launcher.lastTarget load grammars state).2 = state := by
  unfold lastTarget
  generalize launcher.stored state = answer at stored ⊢
  obtain ⟨_ | _ | record, later⟩ := answer
  · exact stored
  · exact stored
  · obtain rfl : later = state := stored
    have restored := RunRecord.restore_state reads grammars record later
    dsimp only
    split
    · next read => rwa [read] at restored
    · next read => rwa [read] at restored

end Restore

namespace CommandLine

/-! ## Launches -/

/-- What a request to launch aims at: a target of a file, one that is included through a line, or
the last one that was run. -/
inductive Aim where
  | target (file : Path) (wanted : String ⊕ Nat) (dryRun : Bool)
  | included (file : Path) (line : Nat) (name : String) (dryRun : Bool)
  | last

namespace Aim

/-- The request that prints the command for what is aimed at, or the one that launches it. -/
def request (aim : Aim) (print : Bool) : Request :=
  match aim with
  | target file wanted dryRun => .run file wanted dryRun print
  | included file line name dryRun => .included file line (some name) dryRun print
  | last => .rerun print

def action : Aim → Action
  | target _ _ dryRun => App.actionOf dryRun
  | included _ _ _ dryRun => App.actionOf dryRun
  | last => .run

end Aim

namespace App

variable {app : App} {target : Occurrence} {action : Action} {world : World}

/-- The course of a launch: a run is recorded before its command is handed over. -/
def launching (app : App) (target : Occurrence) (action : Action) (command : Command)
    (world : World) : Course :=
  match action with
  | .dryRun => .hands command world
  | .run =>
    match app.launcher.save (.ofOccurrence target command.text) world with
    | (.error cause, world) => .ends (.error (.fault cause), world)
    | (.ok (), world) => .hands command world

theorem launch_of_error {cause : Fault} (fails : app.launcher.render target action = .error cause)
    (print : Bool) : app.launch target action print world = (.error (.fault cause), world) := by
  cases print with
  | true => rw [launch, if_pos rfl, fails]
  | false =>
    rw [launch, if_neg Bool.false_ne_true]
    cases action with
    | run => rw [Launcher.execute, Launcher.run, fails]
    | dryRun => rw [Launcher.execute, Launcher.dryRun, fails]

theorem launch_print {command : Command}
    (rendered : app.launcher.render target action = .ok command) :
    app.launch target action true world = (.ok 0, world.printLine command.text) := by
  rw [launch, if_pos rfl, rendered]

theorem launch_of_render {command : Command}
    (rendered : app.launcher.render target action = .ok command) :
    app.launch target action false world =
      (app.launching target action command world).result app.launcher.executor := by
  rw [launch, if_neg Bool.false_ne_true]
  cases action with
  | dryRun =>
    rw [Launcher.execute, Launcher.dryRun, rendered]
    rfl
  | run =>
    rw [Launcher.execute, Launcher.run, rendered, launching]
    dsimp only
    rcases app.launcher.save (.ofOccurrence target command.text) world with ⟨_ | _, later⟩ <;> rfl

/-- What is run again is the last target, whether its command is printed or handed over. -/
theorem rerun_eq (app : App) (print : Bool) (world : World) :
    app.rerun print world =
      match app.launcher.lastTarget app.workspace.source.load app.workspace.grammars world with
      | (.error cause, world) => (.error (.fault cause), world)
      | (.ok none, world) => (.ok 0, World.note .nothingRun world)
      | (.ok (some target), world) => app.launch target .run print world := by
  cases print with
  | true => rfl
  | false =>
    rw [rerun, if_neg Bool.false_ne_true, Launcher.rerun]
    rcases app.launcher.lastTarget app.workspace.source.load app.workspace.grammars world with
      ⟨_ | _ | target, later⟩
    · rfl
    · rfl
    · dsimp only
      rw [launch, if_neg Bool.false_ne_true, Launcher.execute]
      rcases app.launcher.run target later with ⟨_ | _, after⟩ <;> rfl

/-- Whether the command is to be printed or handed over, and to whatever: the same target is found,
or the request ends in the same way without one. -/
def Meets (app : App) (aim : Aim) (world seen : World) : Prop :=
  (∃ result, ∀ executor print,
    (app.withExecutor executor).handle (aim.request print) world = (result, seen)) ∨
  ∃ target, ∀ executor print, (app.withExecutor executor).handle (aim.request print) world =
    (app.withExecutor executor).launch target aim.action print seen

section Meets

variable (source : app.workspace.source = .ofFiles World.files World.note)

include source

theorem meets_target (file : Path) (wanted : String ⊕ Nat) (dryRun : Bool) (world : World) :
    ∃ seen, world.Prints "" seen ∧ app.Meets (.target file wanted dryRun) world seen := by
  have opened := openFile_prints source file world
  unfold Meets
  simp only [Aim.request, Aim.action, handle, run, withExecutor_openFile, withExecutor_workspace]
  generalize app.openFile file world = answer at opened ⊢
  obtain ⟨failure | targetFile, later⟩ := answer
  · exact ⟨later, opened, .inl ⟨_, fun _ _ => rfl⟩⟩
  · cases wanted with
    | inl name =>
      have walked := World.prints_of_looks
        (Walker.targetNamed?_looks (looks_walker source) targetFile name) later
      dsimp only
      generalize app.workspace.walker.targetNamed? targetFile name later = answer at walked ⊢
      obtain ⟨_ | target, final⟩ := answer
      · exact ⟨final, opened.trans walked, .inl ⟨_, fun _ _ => rfl⟩⟩
      · exact ⟨final, opened.trans walked, .inr ⟨target, fun _ _ => rfl⟩⟩
    | inr number =>
      cases number with
      | zero => exact ⟨later, opened, .inl ⟨_, fun _ _ => rfl⟩⟩
      | succ line =>
        dsimp only
        cases targetFile.targetAtLine? line with
        | none => exact ⟨later, opened, .inl ⟨_, fun _ _ => rfl⟩⟩
        | some target => exact ⟨later, opened, .inr ⟨.direct target, fun _ _ => rfl⟩⟩

theorem meets_included (file : Path) (line : Nat) (name : String) (dryRun : Bool) (world : World) :
    ∃ seen, world.Prints "" seen ∧ app.Meets (.included file line name dryRun) world seen := by
  have opened := openFile_prints source file world
  unfold Meets
  simp only [Aim.request, Aim.action, handle, included, withExecutor_openFile,
    withExecutor_workspace]
  generalize app.openFile file world = answer at opened ⊢
  obtain ⟨failure | targetFile, later⟩ := answer
  · exact ⟨later, opened, .inl ⟨_, fun _ _ => rfl⟩⟩
  · cases line with
    | zero => exact ⟨later, opened, .inl ⟨_, fun _ _ => rfl⟩⟩
    | succ number =>
      have walked := World.prints_of_looks
        (Walker.targetsAtLine_looks (looks_walker source) targetFile number) later
      dsimp only
      generalize app.workspace.walker.targetsAtLine targetFile number later = answer at walked ⊢
      obtain ⟨reachable, final⟩ := answer
      dsimp only
      cases reachable.find? fun target => target.declared.name == name with
      | none => exact ⟨final, opened.trans walked, .inl ⟨_, fun _ _ => rfl⟩⟩
      | some target => exact ⟨final, opened.trans walked, .inr ⟨.included target, fun _ _ => rfl⟩⟩

theorem meets_last (stored : ∀ world, (app.launcher.stored world).2 = world) (world : World) :
    ∃ seen, world.Prints "" seen ∧ app.Meets .last world seen := by
  have reads : ∀ path world, (app.workspace.source.load path world).2 = world := by
    rw [source]
    exact fun _ _ => rfl
  have kept := Launcher.lastTarget_state reads app.workspace.grammars (stored world)
  have same : ∀ executor, (app.withExecutor executor).launcher.lastTarget
      app.workspace.source.load app.workspace.grammars world =
        app.launcher.lastTarget app.workspace.source.load app.workspace.grammars world :=
    fun _ => rfl
  unfold Meets
  -- the last target is looked up in two ways, which `rerun_eq` brings together
  simp only [Aim.request, Aim.action, handle, rerun_eq, withExecutor_workspace, same]
  generalize app.launcher.lastTarget app.workspace.source.load app.workspace.grammars world = answer
    at kept ⊢
  obtain ⟨_ | _ | target, later⟩ := answer <;> obtain rfl : later = world := kept
  · exact ⟨later, .rfl, .inl ⟨_, fun _ _ => rfl⟩⟩
  · exact ⟨_, World.prints_note _ later, .inl ⟨_, fun _ _ => rfl⟩⟩
  · exact ⟨later, .rfl, .inr ⟨target, fun _ _ => rfl⟩⟩

theorem meets (stored : ∀ world, (app.launcher.stored world).2 = world) (aim : Aim)
    (world : World) : ∃ seen, world.Prints "" seen ∧ app.Meets aim world seen := by
  cases aim with
  | target file wanted dryRun => exact meets_target source file wanted dryRun world
  | included file line name dryRun => exact meets_included source file line name dryRun world
  | last => exact meets_last source stored world

end Meets

/-- **A preview.** Both requests for what is aimed at see nothing else than printed remarks on the
way. Then both end with the same result, or there is a command for a target that the one prints and
the other launches. -/
theorem takes_aim (source : app.workspace.source = .ofFiles World.files World.note)
    (stored : ∀ world, (app.launcher.stored world).2 = world) (aim : Aim) (world : World) :
    ∃ seen, world.Prints "" seen ∧
      ((∃ result, ∀ print, app.Takes (aim.request print) world (.ends (result, seen))) ∨
        ∃ target command, app.launcher.render target aim.action = .ok command ∧
          app.Takes (aim.request true) world (.ends (.ok 0, seen.printLine command.text)) ∧
          app.Takes (aim.request false) world
            (app.launching target aim.action command seen)) := by
  obtain ⟨seen, prints, ⟨result, ends⟩ | ⟨target, found⟩⟩ := meets source stored aim world
  · exact ⟨seen, prints, .inl ⟨result, fun print executor => ends executor print⟩⟩
  · have same : ∀ executor, (app.withExecutor executor).launcher.render target aim.action =
        app.launcher.render target aim.action := fun _ => rfl
    refine ⟨seen, prints, ?_⟩
    cases rendered : app.launcher.render target aim.action with
    | error cause =>
      refine .inl ⟨.error (.fault cause), fun print executor => ?_⟩
      rw [found, launch_of_error ((same executor).trans rendered)]
      rfl
    | ok command =>
      refine .inr ⟨target, command, rendered, fun executor => ?_, fun executor => ?_⟩
      · rw [found, launch_print ((same executor).trans rendered)]
        rfl
      · rw [found, launch_of_render ((same executor).trans rendered)]
        rfl

/-! ## Files that are left alone -/

theorem keepsFiles_launching {folder : Path} {settings : Settings}
    (launcher : app.launcher = launcherIn folder settings) (target : Occurrence) (command : Command)
    (action : Action) (world : World) :
    world.files.KeepsFiles
      (if action = .run then [world.files.placeOf (RunRecord.filePath folder)] else [])
      (app.launching target action command world).world.files := by
  cases action with
  | dryRun => exact .refl _ _
  | run =>
    rw [if_pos rfl, launching, launcher]
    match write : world.files.writeBelow (RunRecord.filePath folder)
        (RunRecord.ofOccurrence target command.text).toJson.pretty.toUTF8 with
    | (result, after) =>
      have keeps := FileSystem.keepsFiles_writeBelow write
      have saved := RunRecord.saveIn_eq write
      simp only [launcherIn, saved]
      cases result <;> exact keeps

/-- A configuration is written where the path leads to none, and then leaves all other files alone;
it is a new file if directories that are made do not change where the path leads. -/
theorem takes_config_init (app : App) (world : World) :
    ∃ result : Result, app.Takes (.config true) world (.ends result) ∧
      world.files.KeepsFiles [world.files.placeOf app.configPath] result.2.files ∧
      (world.files.Settled app.configPath → world.files.KeepsFiles [] result.2.files) := by
  refine ⟨app.config true world, fun _ => rfl, ?_⟩
  rw [config, if_pos rfl]
  split
  · exact ⟨.refl _ _, fun _ => .refl _ _⟩
  · next free =>
    match write : world.files.writeBelow app.configPath
        (Settings.fileHead ++ Settings.standard.document).toUTF8 with
    | (result, after) =>
      have keeps := FileSystem.keepsFiles_writeBelow write
      have new : world.files.Settled app.configPath → world.files.KeepsFiles [] after :=
        fun settled =>
          FileSystem.keepsFiles_writeBelow_of_not_contains settled (by simpa using free) write
      simp only [Settings.save, write]
      cases result <;> exact ⟨keeps, new⟩

theorem takes_config_of_contains (there : world.files.contains app.configPath = true) :
    app.Takes (.config true) world (.ends (.error (.configExists app.configPath), world)) := by
  intro executor
  show app.config true world = _
  rw [config, if_pos rfl, if_pos there]
  rfl

end App

/-- The request launches a run, which is recorded. -/
def Request.records : Request → Bool
  | .run _ _ dryRun print => !dryRun && !print
  | .included _ _ (some _) dryRun print => !dryRun && !print
  | .rerun print => !print
  | _ => false

theorem Aim.records_request (aim : Aim) (print : Bool) :
    (aim.request print).records = (decide (aim.action = .run) && !print) := by
  cases aim with
  | target file wanted dryRun => cases dryRun <;> rfl
  | included file line name dryRun => cases dryRun <;> rfl
  | last => rfl

theorem Request.reads_or_aims (request : Request) :
    request.Reads ∨ (∃ aim print, request = Aim.request aim print) ∨ request = .config true := by
  match request with
  | .list _ _ | .targets _ | .lenses _ | .config false | .included _ _ none _ _ =>
    exact .inl trivial
  | .run file wanted dryRun print => exact .inr (.inl ⟨.target file wanted dryRun, print, rfl⟩)
  | .included file line (some name) dryRun print =>
    exact .inr (.inl ⟨.included file line name dryRun, print, rfl⟩)
  | .rerun print => exact .inr (.inl ⟨.last, print, rfl⟩)
  | .config true => exact .inr (.inr rfl)

namespace App

variable {app : App}

/-- A request writes over no file but the record of the last run, and over that only with a run. -/
theorem takes_and_keepsFiles (source : app.workspace.source = .ofFiles World.files World.note)
    {folder : Path} {settings : Settings} (launcher : app.launcher = launcherIn folder settings)
    {request : Request} (no_init : request ≠ .config true) (world : World) :
    ∃ course, app.Takes request world course ∧
      world.files.KeepsFiles
        (if request.records then [world.files.placeOf (RunRecord.filePath folder)] else [])
        course.world.files := by
  rcases request.reads_or_aims with reads | ⟨aim, print, rfl⟩ | rfl
  · obtain ⟨result, takes, text, prints⟩ := takes_of_reads source reads world
    refine ⟨_, takes, ?_⟩
    rw [Course.world, prints.files]
    exact .refl _ _
  · have stored : ∀ world, (app.launcher.stored world).2 = world := fun _ => by rw [launcher]; rfl
    obtain ⟨seen, prints, ⟨result, ends⟩ | ⟨target, command, -, printed, launched⟩⟩ :=
      takes_aim source stored aim world
    · refine ⟨_, ends print, ?_⟩
      rw [Course.world, prints.files]
      exact .refl _ _
    · rw [aim.records_request]
      cases print with
      | true =>
        refine ⟨_, printed, ?_⟩
        rw [Course.world, World.printLine, World.print, prints.files]
        exact .refl _ _
      | false =>
        have keeps := keepsFiles_launching launcher target command aim.action seen
        rw [prints.files] at keeps
        exact ⟨_, launched, by simpa using keeps⟩
  · exact absurd rfl no_init

end App

/-! ## Command lines -/

def recordPath (invocation : Invocation) (folder : Option String) (files : FileSystem) : Path :=
  let here := FileSystem.pathTo files.workingDirectory
  RunRecord.filePath (App.stateFolder ((Path.absolute? here invocation.project).getD here) folder)

/-- **What command lines do.** One that is refused or opens no project executes nothing and changes
no file. Of two that aim at one target, the first to print its command, both end in the same way
before that, or the first prints the command that the second launches. Those that only read execute
nothing and change no file. All but `config --init` keep every file except the record of the last
run, over which only runs are written. With `config --init` no file is written over but one at the
place that the path of the configuration names: not where the path leads to a file, nor where
directories that are made for it do not change where it leads. -/
theorem command_lines_preview_and_keep_files (environment : Environment) (files : FileSystem) :
    (∀ arguments, (∀ invocation app, readArguments arguments = .ok invocation →
        App.start invocation environment.folder files ≠ .ok app) →
      ∃ result : Result, Performs arguments environment files (.ends result) ∧
        result.2.files = files) ∧
    ∀ (invocation : Invocation) (app : App),
      App.start invocation environment.folder files = .ok app →
      let world : World := ⟨files, "", "", []⟩
      let performs := fun (request : Request) (course : Course) => ∀ arguments,
        readArguments arguments = .ok { invocation with request } →
          Performs arguments environment files course
      let record := files.placeOf (recordPath invocation environment.folder files)
      (∀ aim : Aim, ∃ seen, world.Prints "" seen ∧
        ((∃ result, ∀ print, performs (aim.request print) (.ends (result, seen))) ∨
          ∃ target command, app.launcher.render target aim.action = .ok command ∧
            performs (aim.request true) (.ends (.ok 0, seen.printLine command.text)) ∧
            performs (aim.request false) (app.launching target aim.action command seen))) ∧
      (∀ request : Request, request.Reads → ∃ result : Result,
        performs request (.ends result) ∧ result.2.files = files) ∧
      (∀ request : Request, request ≠ .config true → ∃ course, performs request course ∧
        files.KeepsFiles (if request.records then [record] else []) course.world.files) ∧
      (∃ result : Result, performs (.config true) (.ends result) ∧
        files.KeepsFiles [files.placeOf app.configPath] result.2.files ∧
        (files.Settled app.configPath → files.KeepsFiles [] result.2.files)) ∧
      (files.contains app.configPath → performs (.config true)
        (.ends (.error (.configExists app.configPath), world))) := by
  refine ⟨fun arguments => performs_of_refused, fun invocation app started => ?_⟩
  intro world performs record
  have source := source_of_start started
  have launcher := launcher_of_start started
  have stored : ∀ world, (app.launcher.stored world).2 = world := fun _ => by rw [launcher]; rfl
  have performed : ∀ {request course}, app.Takes request world course → performs request course :=
    fun takes arguments asks => performs_of_takes asks started takes
  refine ⟨fun aim => ?_, fun request reads => ?_, fun request no_init => ?_, ?_, fun there => ?_⟩
  · obtain ⟨seen, prints, ⟨result, ends⟩ | ⟨target, command, rendered, printed, launched⟩⟩ :=
      App.takes_aim source stored aim world
    · exact ⟨seen, prints, .inl ⟨result, fun print => performed (ends print)⟩⟩
    · exact ⟨seen, prints, .inr ⟨target, command, rendered, performed printed,
        performed launched⟩⟩
  · obtain ⟨result, takes, text, prints⟩ := App.takes_of_reads source reads world
    exact ⟨result, performed takes, prints.files⟩
  · obtain ⟨course, takes, keeps⟩ := App.takes_and_keepsFiles source launcher no_init world
    exact ⟨course, performed takes, keeps⟩
  · obtain ⟨result, takes, keeps⟩ := App.takes_config_init app world
    exact ⟨result, performed takes, keeps⟩
  · exact performed (App.takes_config_of_contains there)

/-! ## A path that leads back -/

def smallProject : FileSystem where
  root := .directory [("work", .directory [("Makefile", .file "all:\n".toUTF8)])]
  workingDirectory := ["work"]

/-- The project as it is opened with a configuration file that is not there. -/
def smallApp : App where
  workspace := ⟨(⟨"/work"⟩ : Path).normalize, .standard, .builtin,
    .ofFiles World.files World.note, App.walkLimit⟩
  launcher := App.launcherIn (App.stateFolder ⟨"/work"⟩ none) .standard
  configPath := ⟨"missing/../Makefile"⟩

def smallInvocation : Invocation :=
  ⟨⟨"."⟩, some ⟨"missing/../Makefile"⟩, false, .rerun false⟩

theorem start_smallProject :
    App.start smallInvocation plain.folder smallProject = .ok smallApp := by
  have absolute : Path.absolute? (FileSystem.pathTo smallProject.workingDirectory) ⟨"."⟩ =
      some ⟨"/work"⟩ := by decide +kernel
  have loaded : Settings.loadOrStandard smallApp.configPath smallProject = .ok .standard := by
    rw [Settings.loadOrStandard, if_neg (by decide +kernel)]
  exact start_of_loaded absolute loaded

/-- The command for a target is printed, and it is the one that a run launches. -/
theorem all_is_previewed :
    let arguments := ["--config", "missing/../Makefile", "run", "Makefile", "all"]
    App.start smallInvocation plain.folder smallProject = .ok smallApp ∧
    ∃ seen target command, smallApp.launcher.render target .run = .ok command ∧
      command.text = "make -f /work/Makefile all" ∧
      Performs (arguments ++ ["--print"]) plain smallProject
        (.ends (.ok 0, seen.printLine command.text)) ∧
      Performs arguments plain smallProject (smallApp.launching target .run command seen) := by
  intro arguments
  have output : (run (arguments ++ ["--print"]) plain smallProject).output =
      "make -f /work/Makefile all" ++ "\n" := by
    decide +kernel
  obtain ⟨-, opened⟩ := command_lines_preview_and_keep_files plain smallProject
  obtain ⟨previews, -⟩ := opened smallInvocation smallApp start_smallProject
  obtain ⟨seen, prints, ⟨result, ends⟩ | ⟨target, command, rendered, printed, launched⟩⟩ :=
    previews (.target ⟨"Makefile"⟩ (.inl "all") false)
  · have silent := output_of_performs (ends true (arguments ++ ["--print"]) rfl)
    rw [output, prints.output] at silent
    exact absurd silent (by decide)
  · have printed := printed (arguments ++ ["--print"]) rfl
    have text := output_of_performs printed
    rw [output, World.printLine, World.print, prints.output, String.append_empty,
      String.empty_append] at text
    exact ⟨start_smallProject, seen, target, command, rendered,
      (String.append_left_inj "\n").1 text.symm, printed, launched arguments rfl⟩

/-- A configuration is written over a target file: the path leads to it only once the directory
that it leads back from has been made. -/
theorem config_init_replaces_target_file :
    let ended := run ["--config", "missing/../Makefile", "config", "--init"] plain smallProject
    smallProject.readText ⟨"Makefile"⟩ = .ok "all:\n" ∧ ended.exitCode = 0 ∧
      ended.files.isFile ⟨"Makefile"⟩ = true ∧
      ended.files.readText ⟨"Makefile"⟩ ≠ .ok "all:\n" := by
  intro ended
  -- the bytes are compared only where they begin, so the configuration is not computed
  have begins : (ended.files.read ⟨"Makefile"⟩).toOption.bind (·.data.toList.head?) =
      some '#'.toUInt8 := by
    decide +kernel
  refine ⟨eq_ok_of_toOption (by decide +kernel), by decide +kernel, by decide +kernel, ?_⟩
  intro same
  rw [FileSystem.read_of_readText same] at begins
  exact absurd begins (by decide)

end CommandLine

end BuildTargets
