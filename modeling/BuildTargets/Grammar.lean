import BuildTargets.Dictionary
import BuildTargets.Fault
import BuildTargets.Text.Cursor

/-!
# Grammars

A grammar says how the build files of one runner declare targets and include other files. Headers
are found by a pattern with the groups `target` and `comment`; a match of the pattern is turned
down if it is an assignment or goes on the line before it. Include directives stand at the start
of a line.
-/

namespace BuildTargets

open Text

/-- The header of a target, with its place in the text: `offset` is where the comment before the
header starts, or the line of the header itself when there is no comment. -/
structure Header where
  name : String
  comment : String
  offset : Nat
  headerOffset : Nat
deriving DecidableEq, Repr, Inhabited

structure Grammar where
  runner : String
  includeDirective : String
  header : Pattern
  supportsDryRun : Bool
deriving DecidableEq, Repr, Inhabited

namespace Grammar

/-! ## Making grammars -/

/-- The group of a header pattern that matches the name of the target. -/
def targetGroup : String := "target"

/-- The group of a header pattern that matches the comment before the header. -/
def commentGroup : String := "comment"

/-- Makes a grammar from a written header pattern, which needs both groups. -/
def new (runner includeDirective headerPattern : String) (supportsDryRun : Bool) :
    Except Fault Grammar :=
  match Pattern.read headerPattern with
  | .error cause => .error (.grammar runner (.pattern cause))
  | .ok header =>
    match [commentGroup, targetGroup].find? fun name => !header.groupNames.contains name with
    | some name => .error (.grammar runner (.lacksGroup name))
    | none =>
      if allBlank includeDirective then .error (.grammar runner .emptyDirective)
      else .ok ⟨runner, includeDirective, header, supportsDryRun⟩

def gap : CharSet := CharSet.ofList [' ', '\t']

/-- All characters but those that end a line. -/
def inLine : CharSet := (CharSet.ofList ['\r', '\n']).compl

def nameChar : CharSet := CharSet.asciiAlnum.union (CharSet.ofList ['_', '-'])

/-- A comment line, whose text is taken without the gaps around it, or nothing. -/
def leadingComment : Pattern :=
  .optional (.seqs [.char '#', .manyOf gap, .group commentGroup (.rep 0 none false (.one inLine)),
    .manyOf gap, .optional (.char '\r'), .char '\n'])

def targetName : Pattern := .group targetGroup (.someOf nameChar)

/-- Makefiles: a name and a colon, with a gap allowed between them. -/
def make : Grammar where
  runner := "make"
  includeDirective := "include"
  header := .seqs [.assert .lineStart, leadingComment, targetName, .manyOf gap, .char ':']
  supportsDryRun := true

/-- Justfiles: a name, parameters and a colon, with `@` allowed before the name. -/
def just : Grammar where
  runner := "just"
  includeDirective := "!include"
  header := .seqs [.assert .lineStart, leadingComment, .optional (.char '@'), targetName,
    .optional (.seq (.someOf gap) (.manyOf (inLine.inter (CharSet.one ':').compl))), .char ':']
  supportsDryRun := true

/-! ## Headers -/

/-- Whether what follows a match makes it an assignment. -/
def isAssignment (rest : List Char) : Bool :=
  rest.head? == some '=' || rest.take 2 == [':', '=']

/-- The header that a match of the pattern stands for. -/
def accept? (found : Pattern.Found) : Option Header :=
  match found.group? targetGroup with
  | none => none
  | some name =>
    if isAssignment found.whole.stop.ahead then none
    else if isContinuation name.start.beforeLine then none
    else
      let headerOffset := name.start.lineStart
      match found.group? commentGroup with
      | some comment =>
        if isContinuation found.whole.start.behind then
          some ⟨name.text, "", headerOffset, headerOffset⟩
        else some ⟨name.text, comment.text, found.whole.start.offset, headerOffset⟩
      | none => some ⟨name.text, "", headerOffset, headerOffset⟩

/-- How far the headers of a text have been read: the next search begins at byte `next`, and
`place` is a place of the text not behind it. -/
structure Scanner where
  place : Cursor
  next : Nat
  length : Nat

def Scanner.start (text : List Char) : Scanner := ⟨Cursor.start text, 0, width text⟩

/-- The place where the next search begins. -/
def Scanner.cursor (scanner : Scanner) : Cursor := scanner.place.seek scanner.next

/-- The scanner behind a match: it goes on where the match ends, and at least one byte further. -/
def Scanner.after (scanner : Scanner) (found : Pattern.Found) : Scanner :=
  ⟨scanner.cursor, max found.whole.stop.offset (scanner.next + 1), scanner.length⟩

theorem Scanner.lt_next_after (scanner : Scanner) (found : Pattern.Found) :
    scanner.next < (scanner.after found).next :=
  Nat.lt_of_lt_of_le (Nat.lt_succ_self _) (Nat.le_max_right _ _)

def next? (grammar : Grammar) (scanner : Scanner) : Option (Header × Scanner) :=
  if scanner.next ≤ scanner.length then
    match grammar.header.find? scanner.cursor with
    | none => none
    | some found =>
      match accept? found with
      | some header => some (header, scanner.after found)
      | none => next? grammar (scanner.after found)
  else none
termination_by scanner.length + 1 - scanner.next
decreasing_by
  have := scanner.lt_next_after found
  have : (scanner.after found).length = scanner.length := rfl
  omega

theorem next?_progress {grammar : Grammar} {scanner after : Scanner} {header : Header}
    (h : grammar.next? scanner = some (header, after)) :
    scanner.next < after.next ∧ scanner.next ≤ scanner.length ∧ after.length = scanner.length := by
  fun_induction next? grammar scanner with
  | case1 => simp at h
  | case2 scanner hle found _ _ =>
    simp only [Option.some.injEq, Prod.mk.injEq] at h
    obtain ⟨_, rfl⟩ := h
    exact ⟨scanner.lt_next_after found, hle, rfl⟩
  | case3 scanner hle found _ _ ih =>
    obtain ⟨h1, _, h3⟩ := ih h
    exact ⟨Nat.lt_trans (scanner.lt_next_after found) h1, hle, h3⟩
  | case4 => simp at h

/-- The headers that a scanner has still to read. -/
def remaining (grammar : Grammar) (scanner : Scanner) : List Header :=
  match h : grammar.next? scanner with
  | none => []
  | some (header, after) =>
    have := next?_progress h
    header :: remaining grammar after
termination_by scanner.length + 1 - scanner.next
decreasing_by omega

def headers (grammar : Grammar) (text : String) : List Header :=
  grammar.remaining (Scanner.start text.toList)

/-! ## Includes -/

/-- The group of the include pattern that matches the argument. -/
def argumentGroup : String := "argument"

/-- The directive at the start of a line, a gap, and the rest of the line. -/
def includePattern (grammar : Grammar) : Pattern :=
  .seqs [.assert .lineStart, .literal grammar.includeDirective.toList, .someOf gap,
    .group argumentGroup (.manyOf inLine)]

/-- The include directives at `place` and later, each with its offset and its argument without
the blanks around it. A directive without an argument does not count. -/
def includesFrom (pattern : Pattern) (place : Cursor) : List (Nat × String) :=
  match pattern.find? place with
  | none => []
  | some found =>
    let argument := match found.group? argumentGroup with
      | some span => trim span.chars
      | none => []
    let later :=
      if found.whole.stop.ahead.length < place.ahead.length then
        includesFrom pattern found.whole.stop
      else []
    if argument.isEmpty then later
    else (found.whole.start.offset, String.ofList argument) :: later
termination_by place.ahead.length

def includes (grammar : Grammar) (text : String) : List (Nat × String) :=
  includesFrom grammar.includePattern (Cursor.start text.toList)

end Grammar

/-! ## Registries -/

structure Grammars where
  byRunner : Dictionary Grammar
deriving Repr

namespace Grammars

/-- The registry of some grammars, of which a later one replaces an earlier one. -/
def ofList (grammars : List Grammar) : Grammars :=
  ⟨.ofList (grammars.map fun grammar => (grammar.runner, grammar))⟩

def builtin : Grammars := ofList [Grammar.make, Grammar.just]

def all (grammars : Grammars) : List Grammar := grammars.byRunner.values

def get (grammars : Grammars) (runner : String) : Except Fault Grammar :=
  match grammars.byRunner.get? runner with
  | some grammar => .ok grammar
  | none => .error (.unknownRunner runner)

end Grammars

end BuildTargets
