import BuildTargets.Target

/-!
# Target files

A target file is a document read with a grammar: its targets, its include directives, and the
lines that inline runners stand on. Nothing is kept between questions; every answer comes from
the text.
-/

namespace BuildTargets

/-- An include directive: where its line starts, and which files it asks for. -/
structure IncludeEdge where
  offset : Nat
  argument : String
deriving DecidableEq, Repr

/-- A line for an inline runner, with the target it runs. -/
structure InlineAnchor where
  line : Line
  target : Target

structure TargetFile where
  document : Document
  grammar : Grammar
deriving DecidableEq, Repr

namespace TargetFile

def path (file : TargetFile) : Path := file.document.path

/-- The directory that include arguments are resolved against. -/
def directory (file : TargetFile) : Path := file.path.directory

def targets (file : TargetFile) : List Target :=
  (file.grammar.headers file.document.text).map fun header => ⟨file.document, file.grammar, header⟩

def edges (file : TargetFile) : List IncludeEdge :=
  (file.grammar.includes file.document.text).map fun (offset, argument) => ⟨offset, argument⟩

def targetAtLine? (file : TargetFile) (line : Nat) : Option Target :=
  file.targets.find? fun target => target.headerLine.number == line

def targetNamed? (file : TargetFile) (name : String) : Option Target :=
  file.targets.find? fun target => target.name == name

def inlineAnchors (file : TargetFile) (placement : Placement) : List InlineAnchor :=
  file.targets.map fun target => ⟨target.anchorLine placement, target⟩

end TargetFile

/-- A file reached through an include directive; `depth` counts the directives from the root. -/
structure IncludedFile where
  file : TargetFile
  site : IncludeSite
  depth : Nat
deriving DecidableEq, Repr

/-- The targets of an included file, to be run from `root`. -/
def IncludedFile.targets (included : IncludedFile) (root : Document) : List IncludedTarget :=
  included.file.targets.map fun target => ⟨target, root, included.site⟩

end BuildTargets
