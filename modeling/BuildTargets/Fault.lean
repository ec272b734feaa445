import BuildTargets.Glob
import BuildTargets.Path
import BuildTargets.Pattern.Reader

/-!
# Faults and notices

Everything that can go wrong, as causes; `Fault.message` words them. Some name the action that was
asked for: running a target, or showing what running it would do. A notice is the news that a scan
found nothing, which is no fault.
-/

namespace BuildTargets

/-! ## Actions -/

inductive Action where
  | run
  | dryRun
deriving DecidableEq, Repr, Inhabited

namespace Action

def text : Action → String
  | run => "run"
  | dryRun => "dry-run"

/-- The action that a text names; the dry run has three spellings. -/
def ofText? : String → Option Action
  | "run" => some run
  | "dry-run" => some dryRun
  | "dryRun" => some dryRun
  | "dry_run" => some dryRun
  | _ => none

theorem ofText?_text (action : Action) : ofText? action.text = some action := by
  cases action <;> rfl

end Action

/-! ## Causes -/

inductive FileFault where
  | missing
  | exists
  | notDirectory
  | isDirectory
  | nameTooLong
  | nulInName
  | notText
  | stated (text : String)
deriving DecidableEq, Repr

def FileFault.message : FileFault → String
  | missing => "No such file or directory (os error 2)"
  | «exists» => "File exists (os error 17)"
  | notDirectory => "Not a directory (os error 20)"
  | isDirectory => "Is a directory (os error 21)"
  | nameTooLong => "File name too long (os error 36)"
  | nulInName => "file name contained an unexpected NUL byte"
  | notText => "stream did not contain valid UTF-8"
  | stated text => text

inductive ConfigFault where
  | noFilePatterns (runner : String)
  | noRunCommand (runner : String)
  | noDryRun (runner : String)
  | noCommand (action : Action) (runner : String)
  | stated (text : String)
deriving DecidableEq, Repr

def ConfigFault.message : ConfigFault → String
  | noFilePatterns runner => "no file patterns configured for runner '" ++ runner ++ "'"
  | noRunCommand runner => "no run command configured for runner '" ++ runner ++ "'"
  | noDryRun runner => "runner '" ++ runner ++ "' does not support dry runs"
  | noCommand action runner =>
    "no " ++ action.text ++ " command configured for runner '" ++ runner ++ "'"
  | stated text => text

inductive GrammarFault where
  | pattern (cause : PatternFault)
  | lacksGroup (name : String)
  | emptyDirective
  | stated (text : String)
deriving DecidableEq, Repr

def GrammarFault.message : GrammarFault → String
  | pattern cause => "invalid header pattern: " ++ cause.message
  | lacksGroup name => "header pattern lacks the named group '" ++ name ++ "'"
  | emptyDirective => "include directive is empty"
  | stated text => text

inductive SearchFault where
  | badExclude (glob : String) (cause : GlobFault)
  | badPattern (glob : String) (cause : GlobFault)
  | stated (text : String)
deriving DecidableEq, Repr

def SearchFault.message : SearchFault → String
  | badExclude glob cause => "invalid exclude '" ++ glob ++ "': " ++ cause.message
  | badPattern glob cause => "invalid pattern '" ++ glob ++ "': " ++ cause.message
  | stated text => text

/-- What a target was looked for by when none was found. -/
inductive Lookup where
  | named (name : String) (file : Path)
  | onLine (line : Nat) (file : Path)
  | throughLine (name : String) (line : Nat) (file : Path)
  | stated (text : String)
deriving DecidableEq, Repr

def Lookup.message : Lookup → String
  | named name file => name ++ " in " ++ file.text
  | onLine line file => "no target header on line " ++ toString line ++ " of " ++ file.text
  | throughLine name line file =>
    name ++ " through line " ++ toString line ++ " of " ++ file.text
  | stated text => text

inductive ExecutionFault where
  | notStarted (command : String) (cause : FileFault)
  | stated (text : String)
deriving DecidableEq, Repr

def ExecutionFault.message : ExecutionFault → String
  | notStarted command cause => "failed to start '" ++ command ++ "': " ++ cause.message
  | stated text => text

/-- Everything that can go wrong. -/
inductive Fault where
  | file (cause : FileFault)
  | json (text : String)
  | toml (text : String)
  | tomlWriting (text : String)
  | config (cause : ConfigFault)
  | grammar (runner : String) (cause : GrammarFault)
  | documentNotFound (path : Path) (cause : FileFault)
  | discovery (cause : SearchFault)
  | unknownRunner (runner : String)
  | unknownAction (text : String)
  | targetNotFound (lookup : Lookup)
  | execution (cause : ExecutionFault)
deriving DecidableEq, Repr

namespace Fault

def message : Fault → String
  | file cause => "IO error: " ++ cause.message
  | json text => "JSON serialization error: " ++ text
  | toml text => "TOML deserialization error: " ++ text
  | tomlWriting text => "TOML serialization error: " ++ text
  | config cause => "Configuration error: " ++ cause.message
  | grammar runner cause => "Invalid grammar for runner '" ++ runner ++ "': " ++ cause.message
  | documentNotFound path cause => "Document not found: " ++ path.text ++ ": " ++ cause.message
  | discovery cause => "File discovery failed: " ++ cause.message
  | unknownRunner runner => "Unknown runner: " ++ runner
  | unknownAction text => "Unknown action: " ++ text
  | targetNotFound lookup => "Target not found: " ++ lookup.message
  | execution cause => "Execution failed: " ++ cause.message

/-- Whether the fault lies in the files at hand and may go away by itself. -/
def isRecoverable : Fault → Bool
  | file _ => true
  | documentNotFound _ _ => true
  | discovery _ => true
  | _ => false

end Fault

inductive Notice where
  | noFilesFound (runner : String)
  | noTargetsFound (path : Path)
deriving DecidableEq, Repr

def Notice.message : Notice → String
  | noFilesFound runner => "No target files found for runner '" ++ runner ++ "'"
  | noTargetsFound path => "No targets found in " ++ path.text

end BuildTargets
