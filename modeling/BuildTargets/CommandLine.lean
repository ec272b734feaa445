import BuildTargets.CommandLine.Arguments
import BuildTargets.CommandLine.Verbosity
import BuildTargets.RunRecord.File
import BuildTargets.Settings.File
import BuildTargets.Shell
import BuildTargets.Workspace

/-!
# The program

`run` answers a command line: it reads the configuration of the project, does what is asked for,
and says what was printed, what was remarked on, and how the program ended. All files are those
of a `FileSystem`; commands of targets run in the small shell.
-/

namespace BuildTargets

namespace CommandLine

inductive Failure where
  | fault (cause : Fault)
  | configNotLoaded (path : Path) (cause : Fault)
  | configExists (path : Path)
  | notTargetFile (path : Path)
  | lineZero
deriving DecidableEq, Repr

namespace Failure

/-- A fault in words, and then what caused it where that is told apart. -/
def wordsOf : Fault → List String
  | .file cause => [(Fault.file cause).message, cause.message]
  | .json text => [(Fault.json text).message, text]
  | .toml text => [(Fault.toml text).message, text]
  | .tomlWriting text => [(Fault.tomlWriting text).message, text]
  | cause => [cause.message]

def words : Failure → List String
  | fault cause => wordsOf cause
  | configNotLoaded path cause => ("Failed to load " ++ path.text) :: wordsOf cause
  | configExists path => [path.text ++ " already exists"]
  | notTargetFile path => [path.text ++ " is not a target file"]
  | lineZero => ["Line numbers start at 1"]

/-- The causes of a failure, numbered if there are several. -/
def causes : List String → String
  | [] => ""
  | [cause] => "\n\nCaused by:\n    " ++ cause
  | causes => "\n\nCaused by:" ++ String.join (causes.mapIdx fun position cause =>
      "\n    " ++ toString position ++ ": " ++ cause)

def report (failure : Failure) : String :=
  "Error: " ++ failure.words.headD "" ++ causes failure.words.tail

end Failure

/-- Files, what was printed to the two streams, and the remarks in order, last first. -/
structure World where
  files : FileSystem
  output : String
  errors : String
  remarks : List Remark

namespace World

def print (world : World) (text : String) : World := { world with output := world.output ++ text }

def printLine (world : World) (text : String) : World := world.print (text ++ "\n")

def note (remark : Remark) (world : World) : World :=
  { world with remarks := remark :: world.remarks }

def printLines (world : World) (lines : List String) : World := lines.foldl printLine world

def report (world : World) (notices : List Notice) : World :=
  notices.foldl (fun world notice => note (.notice notice) world) world

end World

def executor (command : Command) (world : World) : Except Fault Outcome × World :=
  match Shell.execute command world.files with
  | .error cause => (.error cause, world)
  | .ok (outcome, state) =>
    (.ok outcome, { world with
      files := state.files
      output := world.output ++ Shell.textOf state.output
      errors := world.errors ++ Shell.textOf state.errors })

structure App where
  workspace : Workspace World
  launcher : Launcher World
  configPath : Path

/-- What a command makes: its exit code or its failure, and the world behind it. -/
abbrev Result := Except Failure Nat × World

namespace App

/-- The most files that one walk through includes enters. -/
def walkLimit : Nat := Nat.pow 2 62

/-- The folder of a project for its configuration and for the record of the last run; `folder`
stands in for the usual name. -/
def stateFolder (project : Path) (folder : Option String) : Path :=
  project.join ⟨folder.getD ".mkrun"⟩

/-- The launcher of a project with settings and a state folder. -/
def launcherIn (folder : Path) (settings : Settings) : Launcher World where
  settings := settings
  executor := executor
  save record world :=
    let (result, files) := record.saveIn folder world.files
    (result, { world with files })
  stored world := (RunRecord.loadFrom folder world.files, world)

def start (invocation : Invocation) (folder : Option String) (files : FileSystem) :
    Except Failure App :=
  let here := FileSystem.pathTo files.workingDirectory
  let project := (Path.absolute? here invocation.project).getD here
  let folder := stateFolder project folder
  let configPath := invocation.config.getD (folder.join ⟨"config.toml"⟩)
  match Settings.loadOrStandard configPath files with
  | .error cause => .error (.configNotLoaded configPath cause)
  | .ok settings => .ok {
      workspace := ⟨project.normalize, settings, .builtin,
        Source.ofFiles World.files World.note, walkLimit⟩
      launcher := launcherIn folder settings
      configPath := configPath }

/-! ## Wording -/

def shown (app : App) (path : Path) : String := (path.relativeTo app.workspace.root).text

/-- A target with its comment, and the file it is included from. -/
def describe (app : App) (target : Occurrence) : String :=
  let comment := if target.comment = "" then "" else "  # " ++ target.comment
  let origin := match target with
    | .direct _ => ""
    | .included target => "  (from " ++ app.shown target.declared.path ++ ")"
  target.name ++ comment ++ origin

/-- The number of a line, counted from 1. -/
def lineText (line : Line) : String := toString (line.number + 1)

/-! ## Commands -/

def openFile (app : App) (file : Path) (world : World) : Except Failure TargetFile × World :=
  match app.workspace.open? file world with
  | (.error cause, world) => (.error (.fault cause), world)
  | (.ok none, world) => (.error (.notTargetFile file), world)
  | (.ok (some targetFile), world) => (.ok targetFile, world)

def listed (app : App) (runner : String) (item : FileTargets) : List String :=
  ("[" ++ runner ++ "] " ++ item.entry.label ++ " (" ++ app.shown item.entry.file.path ++ ")") ::
    item.targets.map fun target => "  " ++ app.describe target

/-- Whether a fault concerns one runner alone, so that others can still be listed. -/
def isOfRunner : Fault → Bool
  | .config _ => true
  | .unknownRunner _ => true
  | _ => false

/-- Lists the targets of runners, one after the other. One of `several` that cannot be used is
skipped. -/
def list (app : App) (several : Bool) (active : Option Path) : List String → World → Result
  | [], world => (.ok 0, world)
  | runner :: runners, world =>
    match app.workspace.allTargets runner active world with
    | (.error cause, world) =>
      if several && isOfRunner cause then
        app.list several active runners (World.note (.runnerSkipped runner cause) world)
      else (.error (.fault cause), world)
    | (.ok scan, world) =>
      app.list several active runners
        ((world.report scan.notices).printLines (scan.items.flatMap (app.listed runner)))

/-- Prints the targets of a file with their lines, and those it includes with the lines of the
directives. -/
def targets (app : App) (file : Path) (world : World) : Result :=
  match app.openFile file world with
  | (.error failure, world) => (.error failure, world)
  | (.ok targetFile, world) =>
    let direct := targetFile.targets
    let world := world.printLines (direct.map fun target =>
      app.shown target.path ++ ":" ++ lineText target.headerLine ++ "  " ++
        app.describe (.direct target))
    let (included, world) := app.workspace.walker.includedTargets targetFile none world
    let world := world.printLines (included.map fun target =>
      app.shown target.site.document.path ++ ":" ++ lineText target.site.line ++ "  " ++
        app.describe (.included target))
    let world := if direct.isEmpty && included.isEmpty then
        world.report [.noTargetsFound targetFile.path] else world
    (.ok 0, world)

def exitCode (outcome : Outcome) : Nat :=
  match outcome.exitCode with
  | some code => if 0 ≤ code.toInt ∧ code.toInt < 256 then code.toInt.toNat else 1
  | none => 1

def launch (app : App) (target : Occurrence) (action : Action) (print : Bool) (world : World) :
    Result :=
  if print then
    match app.launcher.render target action with
    | .error cause => (.error (.fault cause), world)
    | .ok command => (.ok 0, world.printLine command.text)
  else
    match app.launcher.execute target action world with
    | (.error cause, world) => (.error (.fault cause), world)
    | (.ok outcome, world) => (.ok (exitCode outcome), world)

def actionOf (dryRun : Bool) : Action := if dryRun then .dryRun else .run

/-- Launches a target of a file, by its name or by the line of its header. -/
def run (app : App) (file : Path) (wanted : String ⊕ Nat) (action : Action) (print : Bool)
    (world : World) : Result :=
  match app.openFile file world with
  | (.error failure, world) => (.error failure, world)
  | (.ok targetFile, world) =>
    match wanted with
    | .inr 0 => (.error .lineZero, world)
    | .inr (line + 1) =>
      match targetFile.targetAtLine? line with
      | some target => app.launch (.direct target) action print world
      | none => (.error (.fault (.targetNotFound (.onLine (line + 1) file))), world)
    | .inl name =>
      match app.workspace.walker.targetNamed? targetFile name world with
      | (some target, world) => app.launch target action print world
      | (none, world) => (.error (.fault (.targetNotFound (.named name file))), world)

/-- Prints the targets that are reached through a line of a file, or launches one of them. -/
def included (app : App) (file : Path) (line : Nat) (name : Option String) (action : Action)
    (print : Bool) (world : World) : Result :=
  match app.openFile file world with
  | (.error failure, world) => (.error failure, world)
  | (.ok targetFile, world) =>
    match line with
    | 0 => (.error .lineZero, world)
    | number + 1 =>
      let (reachable, world) := app.workspace.walker.targetsAtLine targetFile number world
      match name with
      | none =>
        let world := if reachable.isEmpty then
            World.note (.nothingReachable line file) world else world
        (.ok 0, world.printLines (reachable.map fun target => app.describe (.included target)))
      | some name =>
        match reachable.find? fun target => target.declared.name == name with
        | some target => app.launch (.included target) action print world
        | none => (.error (.fault (.targetNotFound (.throughLine name line file))), world)

def rerun (app : App) (print : Bool) (world : World) : Result :=
  let load := app.workspace.source.load
  let grammars := app.workspace.grammars
  if print then
    match app.launcher.lastTarget load grammars world with
    | (.error cause, world) => (.error (.fault cause), world)
    | (.ok none, world) => (.ok 0, World.note .nothingRun world)
    | (.ok (some target), world) => app.launch target .run true world
  else
    match app.launcher.rerun load grammars world with
    | (.error cause, world) => (.error (.fault cause), world)
    | (.ok none, world) => (.ok 0, World.note .nothingRun world)
    | (.ok (some outcome), world) => (.ok (exitCode outcome), world)

/-- Prints the lines of a file that inline runners stand on, if they are to be shown. -/
def lenses (app : App) (file : Path) (world : World) : Result :=
  let inlineRunner := app.workspace.settings.inlineRunner
  if inlineRunner.enabled then
    match app.openFile file world with
    | (.error failure, world) => (.error failure, world)
    | (.ok targetFile, world) =>
      let world := world.printLines
        ((targetFile.inlineAnchors inlineRunner.placement).map fun anchor =>
          lineText anchor.line ++ "  run " ++ anchor.target.name)
      let (anchors, world) := app.workspace.walker.includeAnchors targetFile world
      (.ok 0, world.printLines (anchors.map fun anchor =>
        lineText anchor.line ++ "  include " ++ anchor.argument ++ " (" ++
          toString anchor.targetCount ++ " targets)"))
  else (.ok 0, world)

/-- Prints the settings, or writes the standard ones to a file that is not there yet. -/
def config (app : App) (init : Bool) (world : World) : Result :=
  if init then
    if world.files.contains app.configPath then (.error (.configExists app.configPath), world)
    else
      match Settings.standard.save app.configPath world.files with
      | (.error cause, files) => (.error (.fault cause), { world with files })
      | (.ok (), files) =>
        (.ok 0, { world with files }.printLine ("Wrote " ++ app.configPath.text))
  else
    (.ok 0, (world.printLine ("# " ++ app.configPath.text)).print
      app.workspace.settings.document)

def handle (app : App) (request : Request) (world : World) : Result :=
  match request with
  | .list runner active =>
    let runners := match runner with
      | some runner => [runner]
      | none => app.workspace.settings.runners.keys
    app.list (decide (1 < runners.length)) active runners world
  | .targets file => app.targets file world
  | .run file target dryRun print => app.run file target (actionOf dryRun) print world
  | .included file line name dryRun print =>
    app.included file line name (actionOf dryRun) print world
  | .rerun print => app.rerun print world
  | .lenses file => app.lenses file world
  | .config init => app.config init world

end App

/-! ## Running the program -/

/-- What the program is run with besides its arguments: the folder for state that the user named,
and which remarks the user wants to be told. -/
structure Environment where
  folder : Option String
  verbosity : Verbosity

/-- How a run of the program ended: `errors` holds what it printed on the second stream besides
its remarks. -/
structure Ending where
  exitCode : Nat
  output : String
  errors : String
  remarks : List Remark
  files : FileSystem

def versionLine : String := "mkrun 0.1.0\n"

/-- Runs the program. -/
def run (arguments : List String) (environment : Environment) (files : FileSystem) : Ending :=
  match readArguments arguments with
  | .error .usage => ⟨2, "", "usage", [], files⟩
  | .error .help => ⟨0, "", "usage", [], files⟩
  | .error .version => ⟨0, versionLine, "", [], files⟩
  | .ok invocation =>
    match App.start invocation environment.folder files with
    | .error failure => ⟨1, "", failure.report, [], files⟩
    | .ok app =>
      let (result, world) := app.handle invocation.request ⟨files, "", "", []⟩
      let verbosity := if invocation.verbose then .all else environment.verbosity
      let told := world.remarks.reverse.filter fun remark => verbosity.tells remark.level
      match result with
      | .ok code => ⟨code, world.output, world.errors, told, world.files⟩
      | .error failure => ⟨1, world.output, world.errors ++ failure.report, told, world.files⟩

end CommandLine

end BuildTargets
