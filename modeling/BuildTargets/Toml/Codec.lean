import BuildTargets.Settings
import BuildTargets.Toml.Reader

/-!
# Settings in Toml

How settings are written as a Toml document and read back. A record is a table, whose other
members do not count, or an array of its fields in order.
-/

namespace BuildTargets

open Toml

namespace Toml.Value

def leastInteger : Int := -170141183460469231731687303715884105728

def greatestInteger : Int := 340282366920938463463374607431768211455

mutual

/-- Whether the numbers in a value fit into the widest types for them. -/
def isWithinRange : Value → Bool
  | .integer value => leastInteger ≤ value && value ≤ greatestInteger
  | .float written => isFiniteFloat written
  | .array elements => areWithinRange elements
  | .table members => membersAreWithinRange members
  | _ => true

def areWithinRange : List Value → Bool
  | [] => true
  | value :: rest => value.isWithinRange && areWithinRange rest

def membersAreWithinRange : List (String × Value) → Bool
  | [] => true
  | (_, value) :: rest => value.isWithinRange && membersAreWithinRange rest

end

def text? : Value → Option String
  | string text => some text
  | _ => none

def bool? : Value → Option Bool
  | bool value => some value
  | _ => none

def list? {α : Type} (element? : Value → Option α) : Value → Option (List α)
  | array elements => elements.mapM element?
  | _ => none

/-- The fields of a record, which are there or not. An array holds at least `least` of them, and
what else it holds does not count; a date holds none. -/
def fields? (names : List String) (least : Nat) : Value → Option (List (Option Value))
  | array elements =>
    if least ≤ elements.length then
      some ((List.range names.length).map fun position => elements[position]?)
    else none
  | table members =>
    if membersAreWithinRange (members.filter fun member => !names.contains member.1) then
      some (names.map fun name => members.lookup name)
    else none
  | date _ => some (names.map fun _ => none)
  | _ => none

/-- The name of one of several variants: a text, or a table whose one member is that name with
nothing in it. -/
def variant? : Value → Option String
  | string text => some text
  | table [(name, array [])] => some name
  | table [(name, table [])] => some name
  | _ => none

end Toml.Value

namespace RunnerSettings

/-- A runner without a dry run has no member for its command. -/
def toToml (settings : RunnerSettings) : Value := .table (
  [("file_patterns", .array (settings.filePatterns.map .string)),
    ("run_command", .string settings.runCommand)] ++
  settings.dryRunCommand.toList.map fun command => ("dry_run_command", .string command))

def ofToml? (value : Value) : Option RunnerSettings :=
  match value.fields? ["file_patterns", "run_command", "dry_run_command"] 2 with
  | some [some filePatterns, some runCommand, dryRunCommand] => do
    return ⟨← filePatterns.list? Value.text?, ← runCommand.text?,
      ← dryRunCommand.elim (some none) fun command => command.text?.map some⟩
  | _ => none

end RunnerSettings

namespace InlineSettings

def toToml (settings : InlineSettings) : Value := .table [
  ("enabled", .bool settings.enabled), ("placement", .string settings.placement.text)]

/-- Fields that are not there have their standard values. -/
def ofToml? (value : Value) : Option InlineSettings :=
  match value.fields? ["enabled", "placement"] 0 with
  | some [enabled, placement] => do
    return ⟨← enabled.elim (some standard.enabled) Value.bool?,
      ← placement.elim (some standard.placement) fun placement =>
        placement.variant?.bind Placement.ofText?⟩
  | _ => none

end InlineSettings

namespace Settings

def toToml (settings : Settings) : List (String × Value) := [
  ("runners", .table (settings.runners.entries.map fun (name, runner) => (name, runner.toToml))),
  ("excluded_folders", .array (settings.excludedFolders.map .string)),
  ("inline_runner", settings.inlineRunner.toToml)]

def runnersOfToml? : Value → Option (Dictionary RunnerSettings)
  | .table members => do
    let runners ← members.mapM fun (name, member) => do
      return (name, ← RunnerSettings.ofToml? member)
    return .ofList runners
  | _ => none

/-- Fields that are not there have their standard values. -/
def ofToml? (value : Value) : Option Settings :=
  match value.fields? ["runners", "excluded_folders", "inline_runner"] 0 with
  | some [runners, excludedFolders, inlineRunner] => do
    return ⟨← runners.elim (some standard.runners) runnersOfToml?,
      ← excludedFolders.elim (some standard.excludedFolders) fun folders =>
        folders.list? Value.text?,
      ← inlineRunner.elim (some standard.inlineRunner) InlineSettings.ofToml?⟩
  | _ => none

end Settings

end BuildTargets
