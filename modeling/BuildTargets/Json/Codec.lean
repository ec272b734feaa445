import BuildTargets.Json.Reader
import BuildTargets.Json.Record
import BuildTargets.Launch

/-!
# Values in Json

How settings, headers, commands, outcomes and records of runs are written in Json and read back.
-/

namespace BuildTargets

open Json

namespace Action

def toJson (action : Action) : Value := .ofText action.text

def ofJson? (value : Value) : Option Action := do
  match ← value.variant? with
  | "run" => some .run
  | "dry-run" => some .dryRun
  | _ => none

end Action

namespace Placement

def toJson (placement : Placement) : Value := .ofText placement.text

def ofJson? (value : Value) : Option Placement := do Placement.ofText? (← value.variant?)

end Placement

namespace Path

def toJson (path : Path) : Value := .ofText path.text

def ofJson? (value : Value) : Option Path := value.text?.map Path.mk

end Path

namespace Header

def toJson (header : Header) : Value := .ofMembers [
  ("name", .ofText header.name), ("comment", .ofText header.comment),
  ("offset", .integer header.offset), ("header_offset", .integer header.headerOffset)]

def ofJson? (value : Value) : Option Header :=
  match value.fields? ["name", "comment", "offset", "header_offset"] 4 with
  | some [some name, some comment, some offset, some headerOffset] => do
    return ⟨← name.text?, ← comment.text?, ← offset.word?, ← headerOffset.word?⟩
  | _ => none

end Header

namespace Command

def toJson (command : Command) : Value := .ofMembers [
  ("command", .ofText command.text), ("working_directory", command.directory.toJson),
  ("action", command.action.toJson), ("runner", .ofText command.runner),
  ("name", .ofText command.name)]

def ofJson? (value : Value) : Option Command :=
  match value.fields? ["command", "working_directory", "action", "runner", "name"] 5 with
  | some [some text, some directory, some action, some runner, some name] => do
    return ⟨← text.text?, ← Path.ofJson? directory, ← Action.ofJson? action, ← runner.text?,
      ← name.text?⟩
  | _ => none

end Command

namespace Outcome

def toJson (outcome : Outcome) : Value := .ofMembers [
  ("exit_code", match outcome.exitCode with
    | some code => .integer code.toInt
    | none => .null)]

def codeOfJson? (value : Value) : Option Int32 :=
  (value.integer? (-2147483648) 2147483647).map Int32.ofInt

/-- An object without an exit code has none. -/
def ofJson? (value : Value) : Option Outcome :=
  match value.fields? ["exit_code"] 1 with
  | some [some code] => (code.nullable? codeOfJson?).map Outcome.mk
  | some [none] => some ⟨none⟩
  | _ => none

end Outcome

namespace IncludeOrigin

def toJson (origin : IncludeOrigin) : Value := .ofMembers [
  ("root", origin.root.toJson), ("site_path", origin.sitePath.toJson),
  ("site_offset", .integer origin.siteOffset)]

def ofJson? (value : Value) : Option IncludeOrigin :=
  match value.fields? ["root", "site_path", "site_offset"] 3 with
  | some [some root, some sitePath, some siteOffset] => do
    return ⟨← Path.ofJson? root, ← Path.ofJson? sitePath, ← siteOffset.word?⟩
  | _ => none

end IncludeOrigin

namespace RunRecord

/-- A target that was not included has no member for its origin. -/
def toJson (record : RunRecord) : Value := .ofMembers (
  [("runner", .ofText record.runner), ("name", .ofText record.name),
    ("declared_in", record.declaredIn.toJson), ("offset", .integer record.offset)] ++
  (record.includedFrom.toList.map fun origin => ("included_from", origin.toJson)) ++
  [("command", .ofText record.command)])

def ofJson? (value : Value) : Option RunRecord :=
  match value.fields?
      ["runner", "name", "declared_in", "offset", "included_from", "command"] 6 with
  | some [some runner, some name, some declaredIn, some offset, origin, some command] => do
    return ⟨← runner.text?, ← name.text?, ← Path.ofJson? declaredIn, ← offset.word?,
      ← (origin.getD .null).nullable? IncludeOrigin.ofJson?, ← command.text?⟩
  | _ => none

end RunRecord

namespace RunnerSettings

/-- A runner without a dry run has no member for its command. -/
def toJson (settings : RunnerSettings) : Value := .ofMembers (
  [("file_patterns", .array (settings.filePatterns.map .ofText)),
    ("run_command", .ofText settings.runCommand)] ++
  settings.dryRunCommand.toList.map fun command => ("dry_run_command", .ofText command))

def ofJson? (value : Value) : Option RunnerSettings :=
  match value.fields? ["file_patterns", "run_command", "dry_run_command"] 2 with
  | some [some filePatterns, some runCommand, dryRunCommand] => do
    return ⟨← filePatterns.list? Value.text?, ← runCommand.text?,
      ← (dryRunCommand.getD .null).nullable? Value.text?⟩
  | _ => none

end RunnerSettings

namespace InlineSettings

def toJson (settings : InlineSettings) : Value := .ofMembers [
  ("enabled", .bool settings.enabled), ("placement", settings.placement.toJson)]

/-- Fields that are not there have their standard values. -/
def ofJson? (value : Value) : Option InlineSettings :=
  match value.fields? ["enabled", "placement"] 0 with
  | some [enabled, placement] => do
    return ⟨← enabled.elim (some standard.enabled) Value.bool?,
      ← placement.elim (some standard.placement) Placement.ofJson?⟩
  | _ => none

end InlineSettings

namespace Settings

def toJson (settings : Settings) : Value := .ofMembers [
  ("runners", .ofMembers (settings.runners.entries.map fun (name, runner) =>
    (name, runner.toJson))),
  ("excluded_folders", .array (settings.excludedFolders.map .ofText)),
  ("inline_runner", settings.inlineRunner.toJson)]

/-- The settings of all runners by name; of two with one name the later one holds. -/
def runnersOfJson? (value : Value) : Option (Dictionary RunnerSettings) := do
  let members ← value.members?
  let runners ← members.mapM fun (name, member) => do
    return (name, ← RunnerSettings.ofJson? member)
  return .ofList runners

/-- Fields that are not there have their standard values. -/
def ofJson? (value : Value) : Option Settings :=
  match value.fields? ["runners", "excluded_folders", "inline_runner"] 0 with
  | some [runners, excludedFolders, inlineRunner] => do
    return ⟨← runners.elim (some standard.runners) runnersOfJson?,
      ← excludedFolders.elim (some standard.excludedFolders) fun folders =>
        folders.list? Value.text?,
      ← inlineRunner.elim (some standard.inlineRunner) InlineSettings.ofJson?⟩
  | _ => none

end Settings

end BuildTargets
