import BuildTargets.FileSystem.Search
import BuildTargets.Shell.State
import BuildTargets.Shell.Sum
import BuildTargets.Shell.Token

/-!
# What words stand for

A word is filled in with values, outputs and sums, divided at the blanks that came in without
quotes, and then taken as a glob if it has wildcards without quotes.
-/

namespace BuildTargets.Shell

/-- A part of a word that was filled in: each character, and whether it stands in quotes. -/
abbrev Field := List (Char × Bool)

/-- The fields of a word so far, and the one under way, if one is; characters are listed last
first. -/
structure Filling where
  done : List Field
  now : Option Field

namespace Filling

def push (filling : Filling) (c : Char) (quoted : Bool) : Filling :=
  { filling with now := some ((c, quoted) :: filling.now.getD []) }

/-- Makes sure that a field is under way. -/
def begin (filling : Filling) : Filling := { filling with now := some (filling.now.getD []) }

def cut (filling : Filling) : Filling :=
  match filling.now with
  | some field => ⟨field.reverse :: filling.done, none⟩
  | none => filling

/-- Adds a text that was filled in. Without quotes its blanks divide fields. -/
def add (filling : Filling) (text : String) (quoted : Bool) : Filling :=
  text.toList.foldl (fun filling c =>
    if !quoted && (c = ' ' || c = '\t' || c = '\n') then filling.cut else filling.push c quoted)
    filling

def fields (filling : Filling) : List Field := filling.cut.done.reverse

end Filling

/-- A text without the line ends at its end. -/
def chopLines (text : String) : String :=
  String.ofList (text.toList.reverse.dropWhile (· == '\n')).reverse

/-- The text that bytes spell, or the sign that they spell none. -/
def textOf (bytes : ByteArray) : String := (String.fromUTF8? bytes).getD "\ufffd"

/-- Fills in a word. `inner` runs a script whose output is asked for. A sum without a value ends
the script. -/
def fill (inner : String → State → State) : Word → Filling → State → Filling × State
  | [], filling, state => (filling, state)
  | .char c quoted :: rest, filling, state => fill inner rest (filling.push c quoted) state
  | .quotes :: rest, filling, state => fill inner rest filling.begin state
  | .value name other quoted :: rest, filling, state =>
    let text := state.value name
    fill inner rest (filling.add (if text = "" then other else text) quoted) state
  | .sum expression :: rest, filling, state =>
    match sum? state.value expression with
    | some number => fill inner rest (filling.add (toString number) true) state
    | none =>
      (filling, { state.refused 2 ("arithmetic expression: division by zero: \"" ++ expression ++
        "\"") with left := true })
  | .output script quoted :: rest, filling, state =>
    let after := inner script { state with piped := .empty, outSink := .pipe }
    let text := chopLines (textOf after.piped)
    fill inner rest (filling.add text quoted) { state.isolated after with piped := state.piped }

/-- Whether a character is a wildcard or begins a class. -/
def isWild (c : Char) : Bool := c == '*' || c == '?' || c == '['

def fieldText (field : Field) : String := String.ofList (field.map Prod.fst)

/-- A field as a glob, in which quoted characters stand for themselves. -/
def fieldGlob (field : Field) : String :=
  String.join (field.map fun (c, quoted) =>
    if quoted then Glob.escape c.toString else c.toString)

def isHidden (path : Path) : Bool :=
  path.text.startsWith "." || (path.text.splitOn "/.").length > 1

/-- The paths that a field with wildcards leads to, or the field itself if there are none. Names
that begin with a point are left out unless the field has them. -/
def pathsOf (files : FileSystem) (field : Field) : List String :=
  if field.any fun (c, quoted) => !quoted && isWild c then
    let found := match files.globPaths (fieldGlob field) with
      | .ok paths => paths.filter fun path => isHidden ⟨fieldText field⟩ || !isHidden path
      | .error _ => []
    if found.isEmpty then [fieldText field]
    else (found.map Path.text).mergeSort fun a b => !decide (b < a)
  else [fieldText field]

def expand (inner : String → State → State) (word : Word) (state : State) : List String × State :=
  let (filling, state) := fill inner word ⟨[], none⟩ state
  (filling.fields.flatMap (pathsOf state.files), state)

def expandAll (inner : String → State → State) : List Word → State → List String × State
  | [], state => ([], state)
  | word :: words, state =>
    let (texts, state) := expand inner word state
    let (later, state) := expandAll inner words state
    (texts ++ later, state)

/-- The one text that a word stands for where it is not divided. -/
def expandWhole (inner : String → State → State) (word : Word) (state : State) : String × State :=
  let (filling, state) := fill inner word ⟨[], none⟩ state
  (String.intercalate " " (filling.fields.map fieldText), state)

/-- A word that gives a variable a value: the name of the variable, and the rest of the word. -/
def assignment? (word : Word) : Option (String × Word) :=
  let name := word.takeWhile fun glyph =>
    match glyph with
    | .char c false => isNamePart c
    | _ => false
  let text := name.filterMap fun glyph =>
    match glyph with
    | .char c _ => some c
    | _ => none
  match word.drop name.length, text with
  | .char '=' false :: rest, c :: _ =>
    if isNameStart c then some (String.ofList text, rest) else none
  | _, _ => none

end BuildTargets.Shell
