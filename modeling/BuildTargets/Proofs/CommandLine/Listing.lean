import BuildTargets.CommandLine
import BuildTargets.Proofs.FileSystem.Search
import BuildTargets.Proofs.Walk.View

/-!
# Runners listed one after the other

What is listed for several runners is what is listed for each of them alone, one after the other,
as long as those that cannot be listed alone are refused by the settings or have no grammar. The
list ends before the first runner that is accepted and still cannot be listed, because a pattern
of its files or an exclude is not a glob.
-/

namespace BuildTargets.CommandLine

/-! ## What is printed -/

/-- A text was printed, and nothing else is seen of what happened besides. -/
structure World.Prints (before : World) (text : String) (after : World) : Prop where
  files : after.files = before.files
  output : after.output = before.output ++ text
  errors : after.errors = before.errors

namespace World

theorem Prints.trans {first second third : World} {text more : String}
    (prints : first.Prints text second) (further : second.Prints more third) :
    first.Prints (text ++ more) third where
  files := further.files.trans prints.files
  output := by rw [further.output, prints.output, String.append_assoc]
  errors := further.errors.trans prints.errors

theorem Prints.rfl {world : World} : world.Prints "" world := ⟨.refl _, by simp, .refl _⟩

theorem prints_note (remark : Remark) (world : World) : world.Prints "" (world.note remark) :=
  ⟨.refl _, by simp [note], .refl _⟩

theorem prints_report (notices : List Notice) (world : World) :
    world.Prints "" (world.report notices) := by
  induction notices generalizing world with
  | nil => exact .rfl
  | cons notice notices ih => exact (prints_note (.notice notice) world).trans (ih _)

theorem prints_printLines (lines : List String) (world : World) :
    world.Prints (String.join (lines.map (· ++ "\n"))) (world.printLines lines) := by
  induction lines generalizing world with
  | nil => exact .rfl
  | cons line lines ih =>
    have first : world.Prints (line ++ "\n") (world.printLine line) := ⟨.refl _, .refl _, .refl _⟩
    rw [List.map_cons, String.join_cons]
    exact first.trans (ih _)

/-- What is asked without a look at more than files and printed texts prints nothing. -/
theorem prints_of_looks {α : Type} {ask : World → α × World}
    (looks : Looks (fun world => (world.files, world.output, world.errors)) ask) (world : World) :
    world.Prints "" (ask world).2 := by
  have kept := looks.kept world
  simp only [Prod.mk.injEq] at kept
  exact ⟨kept.1, by simpa using kept.2.1, kept.2.2⟩

end World

namespace App

variable {app : App}

/-! ## Scans -/

/-- The settings accept the runner, and there is a grammar for it. -/
def Accepts (app : App) (runner : String) : Prop :=
  ∃ settings grammar, app.workspace.settings.runner runner = .ok settings ∧
    app.workspace.grammars.get runner = .ok grammar

def scan (app : App) (active : Option Path) (files : FileSystem) (runner : String) :
    Except Fault (Scan FileTargets) :=
  (app.workspace.allTargets runner active ⟨files, "", "", []⟩).1

def listing (app : App) (active : Option Path) (files : FileSystem) (runner : String) : String :=
  match app.scan active files runner with
  | .ok found => String.join ((found.items.flatMap (app.listed runner)).map (· ++ "\n"))
  | .error _ => ""

/-- Sources look at the files of a world, and remarks leave what was printed alone. -/
theorem looks_world (source : app.workspace.source = .ofFiles World.files World.note) :
    app.workspace.source.Looks fun world => (world.files, world.output, world.errors) := by
  rw [source]
  exact Source.looks_ofFiles (fun same => (Prod.mk.inj same).1) fun _ _ => rfl

/-- A scan answers the same in every world with these files, and prints nothing. -/
theorem allTargets_eq (source : app.workspace.source = .ofFiles World.files World.note)
    (active : Option Path) (runner : String) (world : World) :
    ∃ later, app.workspace.allTargets runner active world =
      (app.scan active world.files runner, later) ∧ world.Prints "" later := by
  have files : app.workspace.source.Looks World.files := by
    rw [source]
    exact Source.looks_ofFiles id fun _ _ => rfl
  have same : (app.workspace.allTargets runner active world).1 =
      app.scan active world.files runner :=
    (Workspace.allTargets_looks files runner active).same rfl
  exact ⟨(app.workspace.allTargets runner active world).2, Prod.ext same rfl,
    World.prints_of_looks (Workspace.allTargets_looks (looks_world source) runner active) world⟩

/-- A scan fails for a reason that lies in one runner alone just if the runner is not accepted. -/
theorem isOfRunner_iff (source : app.workspace.source = .ofFiles World.files World.note)
    {active : Option Path} {files : FileSystem} {runner : String} {cause : Fault}
    (fails : app.scan active files runner = .error cause) :
    isOfRunner cause = true ↔ ¬ app.Accepts runner := by
  unfold scan Workspace.allTargets Workspace.targetFiles at fails
  cases settings : app.workspace.settings.runner runner with
  | error refused =>
    rw [settings] at fails
    cases fails
    refine iff_of_true ?_ fun ⟨_, _, accepted, _⟩ => by cases settings.symm.trans accepted
    unfold Settings.runner at settings
    split at settings
    · cases settings; rfl
    · split at settings <;> cases settings
      rfl
  | ok accepted =>
    cases grammar : app.workspace.grammars.get runner with
    | error refused =>
      rw [settings, grammar] at fails
      cases fails
      refine iff_of_true ?_ fun ⟨_, _, _, known⟩ => by cases grammar.symm.trans known
      unfold Grammars.get at grammar
      split at grammar <;> cases grammar
      rfl
    | ok known =>
      refine iff_of_false ?_ fun refused => refused ⟨accepted, known, settings, grammar⟩
      rw [settings, grammar, source] at fails
      unfold Source.ofFiles at fails
      dsimp only at fails
      cases found : files.findFiles app.workspace.root accepted.workspacePatterns
        app.workspace.settings.excludedFolders with
      | error failed =>
        rw [found] at fails
        obtain ⟨fault, rfl⟩ := FileSystem.discovery_of_findFiles found
        cases fails
        nofun
      | ok paths =>
        rw [found] at fails
        cases fails

/-! ## Lists -/

/-- A runner whose scan fails ends the list, unless it is skipped. -/
theorem list_of_error (source : app.workspace.source = .ofFiles World.files World.note)
    (several : Bool) {active : Option Path} {runner : String} (runners : List String)
    (world : World) {cause : Fault} (fails : app.scan active world.files runner = .error cause) :
    ∃ later, world.Prints "" later ∧ app.list several active (runner :: runners) world =
      if several && isOfRunner cause then app.list several active runners later
      else (.error (.fault cause), later) := by
  obtain ⟨later, answer, prints⟩ := allTargets_eq source active runner world
  rw [fails] at answer
  rw [list, answer]
  dsimp only
  by_cases skipped : (several && isOfRunner cause) = true
  · rw [if_pos skipped]
    exact ⟨_, prints.trans (World.prints_note _ later), (if_pos skipped).symm⟩
  · rw [if_neg skipped]
    exact ⟨later, prints, (if_neg skipped).symm⟩

theorem list_of_ok (source : app.workspace.source = .ofFiles World.files World.note)
    (several : Bool) {active : Option Path} {runner : String} (runners : List String)
    (world : World) {found : Scan FileTargets}
    (succeeds : app.scan active world.files runner = .ok found) :
    ∃ later, world.Prints (app.listing active world.files runner) later ∧
      app.list several active (runner :: runners) world =
        app.list several active runners later := by
  obtain ⟨later, answer, prints⟩ := allTargets_eq source active runner world
  rw [succeeds] at answer
  have printed := (prints.trans (World.prints_report found.notices later)).trans
    (World.prints_printLines (found.items.flatMap (app.listed runner)) _)
  rw [list, answer, listing, succeeds]
  exact ⟨_, by simpa using printed, rfl⟩

/-- The runner is accepted and still cannot be listed. -/
def Stops (app : App) (active : Option Path) (files : FileSystem) (runner : String) : Prop :=
  app.Accepts runner ∧ ∃ cause, app.scan active files runner = .error cause

/-- Of several runners, those that do not stop the list are printed or skipped. -/
theorem list_append (source : app.workspace.source = .ofFiles World.files World.note)
    {active : Option Path} (runners later : List String) (world : World)
    (go_on : ∀ runner ∈ runners, ¬ app.Stops active world.files runner) :
    ∃ after, world.Prints (String.join (runners.map (app.listing active world.files))) after ∧
      app.list true active (runners ++ later) world = app.list true active later after := by
  induction runners generalizing world with
  | nil => exact ⟨world, .rfl, rfl⟩
  | cons runner runners ih =>
    have first : ∃ next, world.Prints (app.listing active world.files runner) next ∧
        app.list true active (runner :: (runners ++ later)) world =
          app.list true active (runners ++ later) next := by
      cases answer : app.scan active world.files runner with
      | error cause =>
        obtain ⟨next, prints, eq⟩ := list_of_error source true (runners ++ later) world answer
        have refused : ¬ app.Accepts runner := fun accepts =>
          go_on runner List.mem_cons_self ⟨accepts, cause, answer⟩
        rw [(isOfRunner_iff source answer).2 refused] at eq
        have silent : app.listing active world.files runner = "" := by rw [listing, answer]
        exact ⟨next, silent ▸ prints, eq⟩
      | ok found => exact list_of_ok source true (runners ++ later) world answer
    obtain ⟨next, prints, eq⟩ := first
    rw [← prints.files] at go_on
    obtain ⟨after, further, eq'⟩ :=
      ih next fun other mem => go_on other (List.mem_cons_of_mem _ mem)
    rw [prints.files] at further
    exact ⟨after, by simpa using prints.trans further, by rw [List.cons_append, eq, eq']⟩

end App

/-! ## Runs of the program -/

variable {arguments : List String} {environment : Environment} {files : FileSystem}
  {invocation : Invocation} {app : App} {world : World}

theorem run_of_ok {code : Nat} (asks : readArguments arguments = .ok invocation)
    (started : App.start invocation environment.folder files = .ok app)
    (handled : app.handle invocation.request ⟨files, "", "", []⟩ = (.ok code, world)) :
    (run arguments environment files).exitCode = code ∧
      (run arguments environment files).output = world.output ∧
      (run arguments environment files).errors = world.errors := by
  simp [run, asks, started, handled]

theorem run_of_error {failure : Failure} (asks : readArguments arguments = .ok invocation)
    (started : App.start invocation environment.folder files = .ok app)
    (handled : app.handle invocation.request ⟨files, "", "", []⟩ = (.error failure, world)) :
    (run arguments environment files).exitCode = 1 ∧
      (run arguments environment files).output = world.output ∧
      (run arguments environment files).errors = world.errors ++ failure.report := by
  simp [run, asks, started, handled]

theorem start_eq_ok (started : App.start invocation environment.folder files = .ok app) :
    let here := FileSystem.pathTo files.workingDirectory
    let project := (Path.absolute? here invocation.project).getD here
    ∃ settings configPath, app = {
      workspace := ⟨project.normalize, settings, .builtin, .ofFiles World.files World.note,
        App.walkLimit⟩
      launcher := App.launcherIn (App.stateFolder project environment.folder) settings
      configPath := configPath } := by
  unfold App.start at started
  dsimp only at started
  split at started <;> cases started
  exact ⟨_, _, rfl⟩

theorem source_of_start (started : App.start invocation environment.folder files = .ok app) :
    app.workspace.source = .ofFiles World.files World.note := by
  obtain ⟨settings, configPath, rfl⟩ := start_eq_ok started
  rfl

theorem run_one {active : Option Path} {runner : String}
    (asks : readArguments arguments =
      .ok { invocation with request := .list (some runner) active })
    (started : App.start invocation environment.folder files = .ok app) :
    (run arguments environment files).output = app.listing active files runner ∧
      match app.scan active files runner with
      | .ok _ => (run arguments environment files).exitCode = 0
      | .error cause => (run arguments environment files).exitCode = 1 ∧
          (run arguments environment files).errors = (Failure.fault cause).report := by
  have source := source_of_start started
  cases answer : app.scan active files runner with
  | error cause =>
    obtain ⟨later, prints, eq⟩ := App.list_of_error source false [] ⟨files, "", "", []⟩ answer
    obtain ⟨exitCode, output, errors⟩ := run_of_error asks started eq
    rw [exitCode, output, errors, prints.output, prints.errors, App.listing, answer]
    simp
  | ok found =>
    obtain ⟨later, prints, eq⟩ := App.list_of_ok source false [] ⟨files, "", "", []⟩ answer
    obtain ⟨exitCode, output, -⟩ := run_of_ok asks started eq
    rw [exitCode, output, prints.output]
    simp

/-- **The list of all runners.** Let several runners be configured. As long as each of them that is
accepted can be listed alone, the list succeeds, and it prints, in the order of the runners, what
the lists of those print that can be listed alone. Otherwise it prints this for the runners before
the first one that is accepted and cannot be listed alone, and fails as that one does. -/
theorem list_prints_up_to_runner_that_stops {active : Option Path} {one : String → List String}
    (started : App.start invocation environment.folder files = .ok app)
    (several : 1 < app.workspace.settings.runners.keys.length)
    (asks : readArguments arguments = .ok { invocation with request := .list none active })
    (asks_one : ∀ runner ∈ app.workspace.settings.runners.keys,
      readArguments (one runner) = .ok { invocation with request := .list (some runner) active }) :
    let all := run arguments environment files
    let alone := fun runner => run (one runner) environment files
    let stops := fun runner => app.Accepts runner ∧ (alone runner).exitCode ≠ 0
    let printed := fun runners : List String => String.join
      ((runners.filter fun runner => (alone runner).exitCode = 0).map fun runner =>
        (alone runner).output)
    ((∀ runner ∈ app.workspace.settings.runners.keys, ¬ stops runner) →
      all.exitCode = 0 ∧ all.output = printed app.workspace.settings.runners.keys) ∧
    ∀ before runner after, app.workspace.settings.runners.keys = before ++ runner :: after →
      (∀ other ∈ before, ¬ stops other) → stops runner →
      all.exitCode = 1 ∧ all.output = printed before ∧ all.errors = (alone runner).errors := by
  intro all alone stops printed
  have source := source_of_start started
  have stops_iff : ∀ runner ∈ app.workspace.settings.runners.keys,
      stops runner ↔ app.Stops active files runner := by
    intro runner mem
    obtain ⟨-, ending⟩ := run_one (asks_one runner mem) started
    refine and_congr_right fun _ => ?_
    cases answer : app.scan active files runner with
    | error cause =>
      rw [answer] at ending
      simp [alone, ending.1]
    | ok found =>
      rw [answer] at ending
      simp [alone, ending]
  have printed_eq : ∀ runners ⊆ app.workspace.settings.runners.keys,
      String.join (runners.map (app.listing active files)) = printed runners := by
    intro runners sub
    induction runners with
    | nil => rfl
    | cons runner runners ih =>
      obtain ⟨output, ending⟩ := run_one (asks_one runner (sub List.mem_cons_self)) started
      have rest := ih fun other mem => sub (List.mem_cons_of_mem _ mem)
      rw [List.map_cons, String.join_cons, rest]
      cases answer : app.scan active files runner with
      | error cause =>
        rw [answer] at ending
        have silent : app.listing active files runner = "" := by rw [App.listing, answer]
        simp [printed, alone, ending.1, silent]
      | ok found =>
        rw [answer] at ending
        simp [printed, alone, ending, output]
  have handled : app.handle (.list none active) ⟨files, "", "", []⟩ =
      app.list true active app.workspace.settings.runners.keys ⟨files, "", "", []⟩ := by
    simp [App.handle, several]
  refine ⟨fun go_on => ?_, fun before runner after keys go_on stop => ?_⟩
  · obtain ⟨later, prints, eq⟩ := App.list_append source
      app.workspace.settings.runners.keys [] ⟨files, "", "", []⟩ fun runner mem =>
        mt (stops_iff runner mem).2 (go_on runner mem)
    rw [List.append_nil] at eq
    obtain ⟨exitCode, output, -⟩ := run_of_ok asks started (handled.trans eq)
    exact ⟨exitCode, by rw [← printed_eq _ (List.Subset.refl _), output, prints.output]; simp⟩
  · have mem : runner ∈ app.workspace.settings.runners.keys := by simp [keys]
    have sub : before ⊆ app.workspace.settings.runners.keys := by simp [keys]
    obtain ⟨accepts, cause, fails⟩ := (stops_iff runner mem).1 stop
    obtain ⟨next, prints, eq⟩ := App.list_append source before (runner :: after)
      ⟨files, "", "", []⟩ fun other inside =>
        mt (stops_iff other (sub inside)).2 (go_on other inside)
    have fails' : app.scan active next.files runner = .error cause := by rw [prints.files, fails]
    obtain ⟨later, silent, eq'⟩ := App.list_of_error source true after next fails'
    have lasting : ¬ (true && App.isOfRunner cause) = true := fun skipped =>
      (App.isOfRunner_iff source fails).1 skipped accepts
    rw [if_neg lasting] at eq'
    obtain ⟨exitCode, output, errors⟩ := run_of_error asks started
      (handled.trans ((congrArg (app.list true active · _) keys).trans (eq.trans eq')))
    obtain ⟨-, ending⟩ := run_one (asks_one runner mem) started
    rw [fails] at ending
    refine ⟨exitCode, ?_, ?_⟩
    · rw [← printed_eq _ sub, output, silent.output, prints.output]
      simp
    · rw [ending.2, errors, silent.errors, prints.errors]
      simp

theorem start_of_loaded {folder : Option String} {project : Path} {settings : Settings}
    (absolute : Path.absolute? (FileSystem.pathTo files.workingDirectory) invocation.project =
      some project)
    (loaded : Settings.loadOrStandard (invocation.config.getD
      ((App.stateFolder project folder).join ⟨"config.toml"⟩)) files = .ok settings) :
    App.start invocation folder files = .ok {
      workspace := ⟨project.normalize, settings, .builtin, .ofFiles World.files World.note,
        App.walkLimit⟩
      launcher := App.launcherIn (App.stateFolder project folder) settings
      configPath := invocation.config.getD
        ((App.stateFolder project folder).join ⟨"config.toml"⟩) } := by
  simp only [App.start, absolute, Option.getD_some, loaded]

/-! ## A pattern that is not a glob -/

/-- A document of settings in which a pattern of one of two runners is not a glob. -/
def brokenText : String :=
  "[runners.just]\nfile_patterns=[\"[\"]\nrun_command=\"just\"\n" ++
    "[runners.make]\nfile_patterns=[\"Makefile\"]\nrun_command=\"make\"\n"

def brokenSettings : Settings where
  runners := .ofList [("just", ⟨["["], "just", none⟩),
    ("make", ⟨["Makefile"], "make", none⟩)]
  excludedFolders := Settings.standard.excludedFolders
  inlineRunner := .standard

def brokenProject : FileSystem where
  root := .directory [("work", .directory [("Makefile", .file "all:\n".toUTF8),
    (".mkrun", .directory [("config.toml", .file brokenText.toUTF8)])])]
  workingDirectory := ["work"]

def brokenFolder : Path := App.stateFolder ⟨"/work"⟩ none

def brokenApp : App where
  workspace := ⟨(⟨"/work"⟩ : Path).normalize, brokenSettings, .builtin,
    .ofFiles World.files World.note, App.walkLimit⟩
  launcher := App.launcherIn brokenFolder brokenSettings
  configPath := brokenFolder.join ⟨"config.toml"⟩

def plain : Environment := ⟨none, .all⟩

theorem start_brokenProject (request : Request) :
    App.start ⟨⟨"."⟩, none, false, request⟩ plain.folder brokenProject = .ok brokenApp := by
  have absolute : Path.absolute? (FileSystem.pathTo brokenProject.workingDirectory) ⟨"."⟩ =
      some ⟨"/work"⟩ := by decide +kernel
  have loaded : Settings.loadOrStandard brokenApp.configPath brokenProject = .ok brokenSettings :=
    eq_ok_of_toOption (by decide +kernel)
  exact start_of_loaded absolute loaded

theorem keys_brokenSettings : brokenSettings.runners.keys = ["just", "make"] := by decide +kernel

def asked : Invocation := ⟨⟨"."⟩, none, false, .list none none⟩

theorem asks_brokenProject : ∀ runner ∈ brokenSettings.runners.keys,
    readArguments ["list", "--runner", runner] =
      .ok { asked with request := .list (some runner) none } := by
  rw [keys_brokenSettings]
  intro runner mem
  simp only [List.mem_cons, List.not_mem_nil, or_false] at mem
  obtain rfl | rfl := mem <;> rfl

theorem alone_brokenProject {runner : String} (configured : runner ∈ brokenSettings.runners.keys) :
    (run ["list", "--runner", runner] plain brokenProject).exitCode = 0 ↔
      (brokenApp.scan none brokenProject runner).toOption.isSome = true := by
  obtain ⟨-, ending⟩ := run_one (asks_brokenProject runner configured)
    (start_brokenProject (.list none none))
  cases answer : brokenApp.scan none brokenProject runner with
  | error cause =>
    rw [answer] at ending
    simp [ending.1, Except.toOption]
  | ok found =>
    rw [answer] at ending
    simp [ending, Except.toOption]

/-- The list of the runner with the broken pattern fails, and with it the list of all runners. -/
theorem broken_pattern_stops_list :
    readArguments ["list"] = .ok asked ∧ brokenApp.Accepts "just" ∧
    (run ["list", "--runner", "just"] plain brokenProject).exitCode ≠ 0 ∧
    (run ["list"] plain brokenProject).exitCode = 1 := by
  have accepts : brokenApp.Accepts "just" := ⟨⟨["["], "just", none⟩, .just, rfl, rfl⟩
  have fails : (run ["list", "--runner", "just"] plain brokenProject).exitCode ≠ 0 := by
    rw [Ne, alone_brokenProject (by simp [keys_brokenSettings])]
    decide +kernel
  have several : 1 < brokenApp.workspace.settings.runners.keys.length := by
    rw [show brokenApp.workspace.settings.runners.keys = _ from keys_brokenSettings]
    decide
  obtain ⟨-, up_to⟩ := @list_prints_up_to_runner_that_stops ["list"] plain brokenProject asked
    brokenApp none (fun runner => ["list", "--runner", runner]) (start_brokenProject _) several rfl
    asks_brokenProject
  exact ⟨rfl, accepts, fails, (up_to [] "just" ["make"] keys_brokenSettings (by simp)
    ⟨accepts, fails⟩).1⟩

/-- Lists another project, which has no files, by the settings of this one. -/
def elsewhere : List String := ["--project", "/none", "--config", ".mkrun/config.toml", "list"]

/-- One of the two runners can be listed, and still not all of them: in the project of the settings,
and in one that has no files. -/
theorem list_fails_where_one_runner_is_listed :
    brokenSettings.runners.keys = ["just", "make"] ∧
    (run ["list", "--runner", "make"] plain brokenProject).exitCode = 0 ∧
    (run ["list"] plain brokenProject).exitCode = 1 ∧
    (run (elsewhere ++ ["--runner", "make"]) plain brokenProject).exitCode = 0 ∧
    (run elsewhere plain brokenProject).exitCode = 1 ∧
    (run elsewhere plain brokenProject).errors =
      "Error: File discovery failed: invalid pattern '**/[': " ++
        "Pattern syntax error near position 9: invalid range pattern" := by
  have listed : (run ["list", "--runner", "make"] plain brokenProject).exitCode = 0 := by
    rw [alone_brokenProject (by simp [keys_brokenSettings])]
    decide +kernel
  exact ⟨keys_brokenSettings, listed, by decide +kernel, by decide +kernel, by decide +kernel⟩

end BuildTargets.CommandLine
