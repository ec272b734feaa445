import BuildTargets.Document
import BuildTargets.Grammar

/-!
# Targets

A target is a header declared in a document. An included target is one that was reached through
an include directive: it keeps the place of its declaration, but runs as if the root document
had declared it. An occurrence is either.
-/

namespace BuildTargets

/-- Which line of a target an inline runner stands on. -/
inductive Placement where
  | target
  | comment
deriving DecidableEq, Repr, Inhabited

namespace Placement

def text : Placement → String
  | target => "target"
  | comment => "comment"

def ofText? : String → Option Placement
  | "target" => some target
  | "comment" => some comment
  | _ => none

theorem ofText?_text (placement : Placement) : ofText? placement.text = some placement := by
  cases placement <;> rfl

end Placement

/-! ## Declared targets -/

/-- A header in the document that declares it, with the grammar that found it. -/
structure Target where
  document : Document
  grammar : Grammar
  header : Header
deriving DecidableEq, Repr

namespace Target

def name (target : Target) : String := target.header.name

/-- The comment before the header, empty when there is none. -/
def comment (target : Target) : String := target.header.comment

def offset (target : Target) : Nat := target.header.offset

def runner (target : Target) : String := target.grammar.runner

def path (target : Target) : Path := target.document.path

def directory (target : Target) : Path := target.path.directory

def headerLine (target : Target) : Line := target.document.lineAt target.header.headerOffset

/-- The line of the comment before the header, if there is one. -/
def commentLine? (target : Target) : Option Line :=
  if target.header.offset < target.header.headerOffset then
    some (target.document.lineAt target.header.offset)
  else none

/-- The line that an inline runner stands on: without a comment, the line of the header. -/
def anchorLine (target : Target) : Placement → Line
  | .target => target.headerLine
  | .comment => target.commentLine?.getD target.headerLine

/-- Two targets are the same if they lie in the same file, belong to the same runner and have
the same header; the text of the file does not count. -/
def same (a b : Target) : Bool :=
  a.path.same b.path && a.runner == b.runner && a.header == b.header

end Target

/-! ## Included targets -/

structure IncludeSite where
  document : Document
  offset : Nat
deriving DecidableEq, Repr

namespace IncludeSite

def line (site : IncludeSite) : Line := site.document.lineAt site.offset

/-- Two sites are the same if they are the same place of the same file. -/
def same (a b : IncludeSite) : Bool :=
  a.document.path.same b.document.path && a.offset == b.offset

end IncludeSite

/-- A target reached from a root document; `site` is the directive that brought in the document
which declares it. -/
structure IncludedTarget where
  declared : Target
  root : Document
  site : IncludeSite
deriving DecidableEq, Repr

namespace IncludedTarget

/-- The file the target runs from. -/
def path (target : IncludedTarget) : Path := target.root.path

def directory (target : IncludedTarget) : Path := target.path.directory

def same (a b : IncludedTarget) : Bool :=
  a.declared.same b.declared && a.root.path.same b.root.path && a.site.same b.site

end IncludedTarget

/-! ## Occurrences -/

/-- A target as a root document sees it: declared there, or reached through its includes. -/
inductive Occurrence where
  | direct (target : Target)
  | included (target : IncludedTarget)
deriving DecidableEq, Repr

namespace Occurrence

def declared : Occurrence → Target
  | direct target => target
  | included target => target.declared

def name (occurrence : Occurrence) : String := occurrence.declared.name

def comment (occurrence : Occurrence) : String := occurrence.declared.comment

def runner (occurrence : Occurrence) : String := occurrence.declared.runner

def grammar (occurrence : Occurrence) : Grammar := occurrence.declared.grammar

/-- The file the target runs from. -/
def path : Occurrence → Path
  | direct target => target.path
  | included target => target.path

def directory : Occurrence → Path
  | direct target => target.directory
  | included target => target.directory

/-- The include directive that the target was reached through, if any. -/
def site? : Occurrence → Option IncludeSite
  | direct _ => none
  | included target => some target.site

def isIncluded (occurrence : Occurrence) : Bool := occurrence.site?.isSome

/-- Direct and included occurrences are never the same. -/
def same : Occurrence → Occurrence → Bool
  | direct a, direct b => a.same b
  | included a, included b => a.same b
  | _, _ => false

end Occurrence

end BuildTargets
