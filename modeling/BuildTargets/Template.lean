import BuildTargets.Target

/-!
# Command templates

A template names attributes of a target as `<name>`, `<comment>`, `<runner>`, `<filePath>` and
`<directoryPath>`. The values are put in as they are, and what they hold is not read again.
-/

namespace BuildTargets

open Text

inductive Placeholder where
  | name
  | comment
  | runner
  | filePath
  | directoryPath
deriving DecidableEq, Repr

namespace Placeholder

def all : List Placeholder := [name, comment, runner, filePath, directoryPath]

def text : Placeholder → String
  | name => "name"
  | comment => "comment"
  | runner => "runner"
  | filePath => "filePath"
  | directoryPath => "directoryPath"

/-- The placeholder that a text calls; the paths have a second name each. -/
def ofText? : String → Option Placeholder
  | "name" => some name
  | "comment" => some comment
  | "runner" => some runner
  | "filePath" => some filePath
  | "fsPath" => some filePath
  | "directoryPath" => some directoryPath
  | "dir" => some directoryPath
  | _ => none

theorem ofText?_text (placeholder : Placeholder) : ofText? placeholder.text = some placeholder := by
  cases placeholder <;> rfl

def written (placeholder : Placeholder) : String := "<" ++ placeholder.text ++ ">"

/-- The attribute of a target. Paths are those the target runs from. -/
def value (placeholder : Placeholder) (target : Occurrence) : String :=
  match placeholder with
  | name => target.name
  | comment => target.comment
  | runner => target.runner
  | filePath => target.path.text
  | directoryPath => target.directory.text

end Placeholder

namespace Template

def nameGroup : String := "name"

/-- A name between angle brackets. -/
def pattern : Pattern :=
  .seqs [.char '<', .group nameGroup (.someOf CharSet.asciiAlpha), .char '>']

/-- What a match of the placeholder pattern is replaced by: itself where the name is unknown. -/
def replacement (target : Occurrence) (found : Pattern.Found) : List Char :=
  match (found.group? nameGroup).bind fun name => Placeholder.ofText? name.text with
  | some placeholder => (placeholder.value target).toList
  | none => found.whole.chars

/-- The template from a place on with its placeholders replaced. -/
def renderFrom (target : Occurrence) (place : Cursor) : List Char :=
  match pattern.find? place with
  | none => place.ahead
  | some found =>
    place.textTo found.whole.start ++ replacement target found ++
      if found.whole.stop.ahead.length < place.ahead.length then
        renderFrom target found.whole.stop
      else found.whole.stop.ahead
termination_by place.ahead.length

def render (template : String) (target : Occurrence) : String :=
  String.ofList (renderFrom target (Cursor.start template.toList))

end Template

end BuildTargets
