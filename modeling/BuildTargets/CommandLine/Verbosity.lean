import BuildTargets.Remark
import BuildTargets.Text.Split

/-!
# Verbosity

Which remarks a user wants to be told. A filter is a list of rules between commas: the name or
the number of a level, a part of the program, or both with an equals sign between them. The rule
of the longest part that holds decides, and of two rules for one part the later one.
-/

namespace BuildTargets.CommandLine

/-- Which remarks are told. -/
inductive Verbosity where
  | silent
  | errors
  | all
deriving DecidableEq, Repr

namespace Verbosity

def tells : Verbosity → Level → Bool
  | silent, _ => false
  | errors, level => level == .error
  | all, _ => true

/-- The verbosity that the name or number of a level stands for. Levels below that of a warning
add no remarks. -/
def ofLevel? (name : List Char) : Option Verbosity :=
  match String.ofList (name.map Char.toLower) with
  | "off" | "0" => some silent
  | "error" | "1" => some errors
  | "warn" | "2" | "info" | "3" | "debug" | "4" | "trace" | "5" => some all
  | _ => none

/-- Whether the program has a part of this name: every part is named with `mkrun` in front. -/
def namesPart (name : List Char) : Bool := name.isPrefixOf "mkrun".toList

/-- Whether a text can be the name of a part of some program. -/
def isPartName (name : List Char) : Bool :=
  !name.isEmpty && name.all fun c => c.isAlphanum || c = '_' || c = ':' || c = '-'

/-- A rule of a filter: the part it is for, and what it tells. The empty part is the whole. -/
abbrev Rule := List Char × Verbosity

/-- Reads a rule. A part alone tells all. -/
def readRule? (text : List Char) : Option Rule :=
  match ofLevel? text, Text.split '=' text with
  | some verbosity, _ => some ([], verbosity)
  | none, [part] => if isPartName part then some (part, all) else none
  | none, [part, []] => if isPartName part then some (part, all) else none
  | none, [part, level] =>
    if isPartName part then (ofLevel? level).map fun verbosity => (part, verbosity) else none
  | none, _ => none

def decisive (rules : List Rule) : Option Rule :=
  (rules.filter fun rule => namesPart rule.1).foldl (fun chosen rule =>
    match chosen with
    | some other => if rule.1.length < other.1.length then some other else some rule
    | none => some rule) none

/-- The verbosity that a filter stands for. Everything is told without a filter and by one that
cannot be read; an empty one tells of errors. -/
def ofFilter : Option String → Verbosity
  | none => all
  | some "" => errors
  | some filter =>
    match (Text.split ',' filter.toList).mapM readRule? with
    | none => all
    | some rules =>
      match decisive rules with
      | some (_, verbosity) => verbosity
      | none => silent

end Verbosity

end BuildTargets.CommandLine
