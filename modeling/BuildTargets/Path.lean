import BuildTargets.Text.Cursor

/-!
# Paths

A path is kept as it was written. Its meaning is the list of its components: repeated and
trailing separators and inner `.` components do not count, and two paths are the same if their
components are. `normalize` folds `.` and `..` away without looking at any file.
-/

namespace BuildTargets

/-- A path as it was written. -/
structure Path where
  text : String
deriving Repr, Inhabited, DecidableEq

namespace Path

/-- One step of a path, in the order that paths are sorted by. -/
inductive Component where
  | root
  | here
  | up
  | name (text : String)
deriving DecidableEq, Repr, Inhabited

namespace Component

def text : Component → String
  | root => "/"
  | here => "."
  | up => ".."
  | name text => text

def rank : Component → Nat
  | root => 0
  | here => 1
  | up => 2
  | name _ => 3

/-- Root, `.`, `..`, then names by code points. -/
def le (a b : Component) : Bool :=
  match a, b with
  | name s, name t => decide (s ≤ t)
  | _, _ => decide (a.rank ≤ b.rank)

end Component

/-! ## Components -/

/-- A component with the stretch of characters it takes in the written path. -/
structure Piece where
  component : Component
  start : Nat
  stop : Nat

/-- A name between separators as a component; `.` counts only at the very start of a path. -/
def pieceOf (first : Bool) (start : Nat) (name : List Char) : List Piece :=
  let stop := start + name.length
  if name = [] then []
  else if name = ['.'] then if first then [⟨.here, start, stop⟩] else []
  else if name = ['.', '.'] then [⟨.up, start, stop⟩]
  else [⟨.name (String.ofList name), start, stop⟩]

/-- The pieces of what is left of a path: `name` holds the characters of the current name,
nearest first, and `start` says where it begins. -/
def piecesFrom (first : Bool) (start : Nat) (name : List Char) : List Char → List Piece
  | [] => pieceOf first start name.reverse
  | c :: rest =>
    if c = '/' then
      pieceOf first start name.reverse ++ piecesFrom false (start + name.length + 1) [] rest
    else piecesFrom first start (c :: name) rest

def pieces (path : Path) : List Piece :=
  match path.text.toList with
  | '/' :: rest => ⟨.root, 0, 1⟩ :: piecesFrom false 1 [] rest
  | text => piecesFrom true 0 [] text

def components (path : Path) : List Component := path.pieces.map Piece.component

/-- The written path from the first of some of its pieces to the last. -/
def stretch (path : Path) (pieces : List Piece) : Path :=
  match pieces.head?, pieces.getLast? with
  | some first, some last =>
    ⟨String.ofList ((path.text.toList.drop first.start).take (last.stop - first.start))⟩
  | _, _ => ⟨""⟩

def isAbsolute (path : Path) : Bool := path.text.toList.head? == some '/'

def same (a b : Path) : Bool := a.components == b.components

theorem same_iff {a b : Path} : a.same b = true ↔ a.components = b.components := beq_iff_eq

theorem same_comm (a b : Path) : a.same b = b.same a := BEq.comm

/-- Component by component; a path comes before those it leads to. -/
def leComponents : List Component → List Component → Bool
  | [], _ => true
  | _ :: _, [] => false
  | a :: as, b :: bs => if a = b then leComponents as bs else a.le b

def le (a b : Path) : Bool := leComponents a.components b.components

/-! ## Taking apart and joining -/

/-- The path without its last component; nothing is left of a path with at most one, and the
root has no parent. -/
def parent? (path : Path) : Option Path :=
  match path.pieces.reverse with
  | [] => none
  | last :: before => if last.component = .root then none else some (path.stretch before.reverse)

/-- The directory that holds a file, `.` for a bare name. -/
def directory (path : Path) : Path :=
  match path.parent? with
  | some parent => if parent.text = "" then ⟨"."⟩ else parent
  | none => ⟨"."⟩

/-- The name at the end of a path, if it ends in one. -/
def fileName? (path : Path) : Option String :=
  match path.components.getLast? with
  | some (.name text) => some text
  | _ => none

/-- What `path` adds to `base`, if it leads through it. -/
def below? (path base : Path) : Option Path :=
  let count := base.components.length
  if path.components.take count = base.components then some (path.stretch (path.pieces.drop count))
  else none

/-- `path` as seen from `base`, `path` itself when it lies elsewhere. -/
def relativeTo (path base : Path) : Path := (path.below? base).getD path

/-- `path` resolved against `base`: an absolute path stands for itself. -/
def join (base path : Path) : Path :=
  if path.isAbsolute then path
  else if base.text = "" || base.text.toList.getLast? == some '/' then ⟨base.text ++ path.text⟩
  else ⟨base.text ++ "/" ++ path.text⟩

instance : Append Path := ⟨join⟩

/-- The path that names one component after the other. -/
def ofComponents (components : List Component) : Path :=
  components.foldl (fun path component => path.join ⟨component.text⟩) ⟨""⟩

/-! ## Normal form -/

/-- Adds one component to a path under construction, whose components are listed last first:
`.` does nothing, and `..` takes a name back, is dropped at the root and is kept otherwise. -/
def pushComponent (done : List Component) : Component → List Component
  | .here => done
  | .up =>
    match done with
    | .name _ :: before => before
    | .root :: before => .root :: before
    | _ => .up :: done
  | component => component :: done

/-- The components of a path with `.` and `..` folded away. -/
def normalComponents (path : Path) : List Component :=
  (path.components.foldl pushComponent []).reverse

/-- A path with `.` and `..` folded away; the empty path is written `.`. -/
def normalize (path : Path) : Path :=
  match path.normalComponents with
  | [] => ⟨"."⟩
  | components => ofComponents components

theorem normalize_congr {a b : Path} (h : a.same b = true) : a.normalize = b.normalize := by
  rw [normalize, normalize, normalComponents, normalComponents, same_iff.1 h]

/-- `path` made absolute against the directory `base`: inner `.` components go, `..` stay, and
so do two separators at the start and one at the end. There is none for the empty path. -/
def absolute? (base path : Path) : Option Path :=
  if path.text = "" then none
  else
    let start := path.text.toList
    let names := match path.components with
      | .here :: rest => rest
      | components => components
    let full :=
      if start.take 2 = ['/', '/'] && start[2]? != some '/' then
        names.tail.foldl (fun done component => done.join ⟨component.text⟩) ⟨"//"⟩
      else if path.isAbsolute then ofComponents names
      else names.foldl (fun done component => done.join ⟨component.text⟩) base
    some (if start.getLast? == some '/' then full.join ⟨""⟩ else full)

end Path

end BuildTargets
