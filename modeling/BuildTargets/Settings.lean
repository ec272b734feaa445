import BuildTargets.TargetFile

/-!
# Settings

For each runner the names of its files and the templates of its commands; what is left out of
scans; and where inline runners are shown. A runner is checked when it is asked for, so that a
broken one does not get in the way of the others.
-/

namespace BuildTargets

open Text

/-- The settings of a runner: globs for the names of its files, and the commands for a target. -/
structure RunnerSettings where
  filePatterns : List String
  runCommand : String
  dryRunCommand : Option String
deriving DecidableEq, Repr, Inhabited

namespace RunnerSettings

def make : RunnerSettings where
  filePatterns := ["Makefile", "makefile", "GNUmakefile", "*.mk"]
  runCommand := "make -f <filePath> <name>"
  dryRunCommand := some "make --dry-run -f <filePath> <name>"

def just : RunnerSettings where
  filePatterns := ["justfile", "Justfile", ".justfile", "*.just"]
  runCommand := "just --justfile <filePath> <name>"
  dryRunCommand := some "just --dry-run --justfile <filePath> <name>"

/-- What is missing from the settings of a runner, if anything is. -/
def fault? (settings : RunnerSettings) (runner : String) : Option ConfigFault :=
  if settings.filePatterns.all allBlank then some (.noFilePatterns runner)
  else if allBlank settings.runCommand then some (.noRunCommand runner)
  else none

/-- Whether one of the patterns describes the name of a file. Patterns that cannot be read
describe nothing. -/
def matchesFileName (settings : RunnerSettings) (name : String) : Bool :=
  settings.filePatterns.any fun pattern =>
    match Glob.read pattern with
    | .ok glob => glob.matchesName name
    | .error _ => false

/-- The patterns for files anywhere below a directory. -/
def workspacePatterns (settings : RunnerSettings) : List String :=
  (settings.filePatterns.filter fun pattern => !allBlank pattern).map ("**/" ++ ·)

/-- The template of the command for an action; a blank one for the dry run does not count. -/
def template? (settings : RunnerSettings) : Action → Option String
  | .run => some settings.runCommand
  | .dryRun => settings.dryRunCommand.filter fun command => !allBlank command

end RunnerSettings

/-- Whether inline runners are shown, and on which line of a target. -/
structure InlineSettings where
  enabled : Bool
  placement : Placement
deriving DecidableEq, Repr

namespace InlineSettings

def standard : InlineSettings := ⟨true, .target⟩

end InlineSettings

/-- All settings. Runners are held in the order of their names. -/
structure Settings where
  runners : Dictionary RunnerSettings
  excludedFolders : List String
  inlineRunner : InlineSettings
deriving DecidableEq, Repr

namespace Settings

/-- The settings that hold where nothing is configured. -/
def standard : Settings where
  runners := .ofList [("make", .make), ("just", .just)]
  excludedFolders := ["**/node_modules/**", "**/.git/**"]
  inlineRunner := .standard

def runner (settings : Settings) (name : String) : Except Fault RunnerSettings :=
  match settings.runners.get? name with
  | none => .error (.unknownRunner name)
  | some runner =>
    match runner.fault? name with
    | some cause => .error (.config cause)
    | none => .ok runner

/-- The first runner that can be used and has a pattern for the name of a file. -/
def runnerFor? (settings : Settings) (fileName : String) : Option String :=
  (settings.runners.entries.find? fun (name, runner) =>
    (runner.fault? name).isNone && runner.matchesFileName fileName).map Prod.fst

end Settings

/-- A document as a target file of the runner that has a pattern for its name, if there is one. -/
def TargetFile.detect (document : Document) (settings : Settings) (grammars : Grammars) :
    Except Fault (Option TargetFile) :=
  match document.path.fileName?.bind settings.runnerFor? with
  | none => .ok none
  | some runner => (grammars.get runner).map fun grammar => some ⟨document, grammar⟩

end BuildTargets
