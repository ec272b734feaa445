import BuildTargets.FileSystem.Search
import BuildTargets.Remark
import BuildTargets.TargetFile

/-!
# Following includes

A walk goes through the files that a root file includes, each before the files it includes in
turn, and enters no file twice. It is pulled: `Walk.next?` searches and loads no more than it
needs for one more file. Faults on the way are remarked on and otherwise mean that there is
nothing to enter.
-/

namespace BuildTargets

/-- Where files are found and read, and who is told about skipped ones. The answers may depend on
a state `σ` and may change it. -/
structure Source (σ : Type) where
  find : Path → List String → List String → σ → Except Fault (List Path) × σ
  load : Path → σ → Except Fault Document × σ
  note : Remark → σ → σ

/-- The source that answers from the files of a state. -/
def Source.ofFiles {σ : Type} (files : σ → FileSystem) (note : Remark → σ → σ) : Source σ where
  find base patterns excludes state := ((files state).findFiles base patterns excludes, state)
  load path state := ((files state).openDocument path, state)
  note := note

/-- How includes are followed: `excludes` hold for every search, and one walk enters at most
`limit` files. -/
structure Walker (σ : Type) where
  source : Source σ
  excludes : List String
  limit : Nat

/-- A file under way: the directives that are still to be searched for, the paths that the last
search found, and where its directive stands. -/
structure Frame where
  file : TargetFile
  depth : Nat
  edges : List IncludeEdge
  pending : List Path
  siteOffset : Nat

/-- The files under way, innermost first, and the normal forms of the paths entered. Files found
are not expanded in turn unless the walk is `recursive`. -/
structure Walk where
  recursive : Bool
  visited : List Path
  stack : List Frame

namespace Walk

/-- A walk through some directives of a root file; it does not enter the root again. -/
def start (root : TargetFile) (edges : List IncludeEdge) (recursive : Bool) (visited : List Path) :
    Walk :=
  ⟨recursive, root.path.normalize :: visited, [⟨root, 0, edges, [], 0⟩]⟩

/-- Whether a path has been entered, under any spelling with the same normal form. -/
def hasVisited (walk : Walk) (path : Path) : Bool := walk.visited.any path.normalize.same

/-- The number of directives that are still to be searched for. -/
def edgesLeft : List Frame → Nat
  | [] => 0
  | frame :: below => edgesLeft below + frame.edges.length

/-- The number of paths that are still to be entered. -/
def pendingLeft : List Frame → Nat
  | [] => 0
  | frame :: below => pendingLeft below + frame.pending.length

variable {σ : Type}

/-! ## Rounds -/

/-- What a round of a walk comes to: nothing is left to do, or there is more to do, or there is a
file. -/
inductive Round (σ : Type) where
  | ended
  | again (walk : Walk) (state : σ)
  | found (included : IncludedFile) (walk : Walk) (state : σ)

/-- One round of a walk. The innermost file under way has its next pending path entered; if none
is pending, its next directive is searched for; if none is left, the file is done with. -/
def round (walker : Walker σ) (walk : Walk) (state : σ) : Round σ :=
  match walk with
  | ⟨_, _, []⟩ => .ended
  | ⟨recursive, visited, ⟨file, depth, edges, path :: pending, offset⟩ :: below⟩ =>
    let frames := ⟨file, depth, edges, pending, offset⟩ :: below
    if walk.hasVisited path then .again ⟨recursive, visited, frames⟩ state
    else
      let visited := path.normalize :: visited
      match walker.source.load path state with
      | (.error cause, state) =>
        .again ⟨recursive, visited, frames⟩
          (walker.source.note (.includeNotLoaded path cause) state)
      | (.ok document, state) =>
        let inner : TargetFile := ⟨document, file.grammar⟩
        let frames :=
          if recursive then ⟨inner, depth + 1, inner.edges, [], 0⟩ :: frames else frames
        .found ⟨inner, ⟨file.document, offset⟩, depth + 1⟩ ⟨recursive, visited, frames⟩ state
  | ⟨recursive, visited, ⟨file, depth, edge :: edges, [], _⟩ :: below⟩ =>
    match walker.source.find file.directory [edge.argument] walker.excludes state with
    | (.ok paths, state) =>
      .again ⟨recursive, visited, ⟨file, depth, edges, paths, edge.offset⟩ :: below⟩ state
    | (.error cause, state) =>
      .again ⟨recursive, visited, ⟨file, depth, edges, [], edge.offset⟩ :: below⟩
        (walker.source.note (.includeNotSearched edge.argument file.path cause) state)
  | ⟨recursive, visited, ⟨_, _, [], [], _⟩ :: below⟩ => .again ⟨recursive, visited, below⟩ state

/-- What a round without a file does. -/
inductive Again (walker : Walker σ) : Walk → σ → Walk → σ → Prop where
  | visited {recursive visited file depth edges path pending offset below state}
      (old : hasVisited ⟨recursive, visited, ⟨file, depth, edges, path :: pending, offset⟩ :: below⟩
        path = true) :
      Again walker ⟨recursive, visited, ⟨file, depth, edges, path :: pending, offset⟩ :: below⟩
        state ⟨recursive, visited, ⟨file, depth, edges, pending, offset⟩ :: below⟩ state
  | notLoaded {recursive visited file depth edges path pending offset below state after cause}
      (new : hasVisited ⟨recursive, visited, ⟨file, depth, edges, path :: pending, offset⟩ :: below⟩
        path = false)
      (load : walker.source.load path state = (.error cause, after)) :
      Again walker ⟨recursive, visited, ⟨file, depth, edges, path :: pending, offset⟩ :: below⟩
        state ⟨recursive, path.normalize :: visited, ⟨file, depth, edges, pending, offset⟩ :: below⟩
        (walker.source.note (.includeNotLoaded path cause) after)
  | searched {recursive visited file depth edge edges offset below state paths after}
      (find : walker.source.find file.directory [edge.argument] walker.excludes state =
        (.ok paths, after)) :
      Again walker ⟨recursive, visited, ⟨file, depth, edge :: edges, [], offset⟩ :: below⟩ state
        ⟨recursive, visited, ⟨file, depth, edges, paths, edge.offset⟩ :: below⟩ after
  | notSearched {recursive visited file depth edge edges offset below state cause after}
      (find : walker.source.find file.directory [edge.argument] walker.excludes state =
        (.error cause, after)) :
      Again walker ⟨recursive, visited, ⟨file, depth, edge :: edges, [], offset⟩ :: below⟩ state
        ⟨recursive, visited, ⟨file, depth, edges, [], edge.offset⟩ :: below⟩
        (walker.source.note (.includeNotSearched edge.argument file.path cause) after)
  | done {recursive visited file depth offset below state} :
      Again walker ⟨recursive, visited, ⟨file, depth, [], [], offset⟩ :: below⟩ state
        ⟨recursive, visited, below⟩ state

theorem again_of_round {walker : Walker σ} {walk after : Walk} {state later : σ}
    (h : round walker walk state = .again after later) : Again walker walk state after later := by
  unfold round at h
  split at h
  · cases h
  · dsimp only at h
    split at h
    · next old => cases h; exact .visited old
    · next new =>
      split at h
      · next load => cases h; exact .notLoaded (by simpa using new) load
      · cases h
  · split at h
    · next find => cases h; exact .searched find
    · next find => cases h; exact .notSearched find
  · cases h; exact .done

/-- How much is left to do for the files under way. -/
def work (walk : Walk) : Nat × Nat × Nat :=
  (edgesLeft walk.stack, pendingLeft walk.stack, walk.stack.length)

theorem Again.work_lt {walker : Walker σ} {walk after : Walk} {state later : σ}
    (h : Again walker walk state after later) :
    Prod.Lex (· < ·) (Prod.Lex (· < ·) (· < ·)) after.work walk.work := by
  cases h with
  | visited => exact .right _ (.left _ _ (Nat.lt_succ_self _))
  | notLoaded => exact .right _ (.left _ _ (Nat.lt_succ_self _))
  | searched => exact .left _ _ (Nat.lt_succ_self _)
  | notSearched => exact .left _ _ (Nat.lt_succ_self _)
  | done => exact .right _ (.right _ (Nat.lt_succ_self _))

/-- Pulls the next file out of a walk. -/
def next? (walker : Walker σ) (walk : Walk) (state : σ) : Option (IncludedFile × Walk) × σ :=
  match _h : round walker walk state with
  | .ended => (none, state)
  | .again walk state => next? walker walk state
  | .found included walk state => (some (included, walk), state)
termination_by walk.work
decreasing_by exact (again_of_round _h).work_lt

/-- The first `count` items, or all of them, that `items` takes from the files of a walk. No file
is pulled that is not needed, and no more than `fuel` files in all. -/
def gather {α : Type} (walker : Walker σ) (items : IncludedFile → List α) :
    (fuel : Nat) → (count : Option Nat) → Walk → σ → List α × σ
  | _, some 0, _, state => ([], state)
  | 0, _, _, state => ([], state)
  | fuel + 1, count, walk, state =>
    match walk.next? walker state with
    | (none, state) => ([], state)
    | (some (included, walk), state) =>
      let found := match count with
        | some count => (items included).take count
        | none => items included
      let (later, state) :=
        gather walker items fuel (count.map (· - found.length)) walk state
      (found ++ later, state)

end Walk

/-! ## Questions about a root file -/

/-- An include directive of a root file, and how many targets are reached through it. -/
structure IncludeAnchor where
  line : Line
  argument : String
  targetCount : Nat

namespace Walker

variable {σ : Type}

/-- The first files, or all of them, that a root file includes; paths in `visited` count as
entered. -/
def includedFiles (walker : Walker σ) (root : TargetFile) (recursive : Bool) (visited : List Path)
    (count : Option Nat) (state : σ) : List IncludedFile × σ :=
  Walk.gather walker (fun included => [included]) walker.limit count
    (Walk.start root root.edges recursive visited) state

/-- The first targets, or all of them, that are reached through some directives of a root file
and that `wanted` holds of. -/
def targetsThrough (walker : Walker σ) (root : TargetFile) (edges : List IncludeEdge)
    (wanted : IncludedTarget → Bool) (count : Option Nat) (state : σ) : List IncludedTarget × σ :=
  Walk.gather walker (fun included => (included.targets root.document).filter wanted)
    walker.limit count (Walk.start root edges true []) state

/-- The first targets, or all of them, that a root file reaches through its includes. -/
def includedTargets (walker : Walker σ) (root : TargetFile) (count : Option Nat) (state : σ) :
    List IncludedTarget × σ :=
  walker.targetsThrough root root.edges (fun _ => true) count state

/-- The first occurrences, or all of them, that `wanted` holds of: those declared in the root
file, and then those it reaches through its includes. -/
def occurrences (walker : Walker σ) (root : TargetFile) (wanted : Occurrence → Bool)
    (count : Option Nat) (state : σ) : List Occurrence × σ :=
  let direct := (root.targets.map Occurrence.direct).filter wanted
  let direct := match count with
    | some count => direct.take count
    | none => direct
  let (included, state) := walker.targetsThrough root root.edges
    (fun target => wanted (.included target)) (count.map (· - direct.length)) state
  (direct ++ included.map Occurrence.included, state)

def allTargets (walker : Walker σ) (root : TargetFile) (state : σ) : List Occurrence × σ :=
  walker.occurrences root (fun _ => true) none state

/-- The first occurrence with a name; nothing is searched or loaded for a target that the root
file declares. -/
def targetNamed? (walker : Walker σ) (root : TargetFile) (name : String) (state : σ) :
    Option Occurrence × σ :=
  let (found, state) :=
    walker.occurrences root (fun occurrence => occurrence.name == name) (some 1) state
  (found.head?, state)

/-- The targets reached through the directives on a line of a root file. -/
def targetsAtLine (walker : Walker σ) (root : TargetFile) (line : Nat) (state : σ) :
    List IncludedTarget × σ :=
  walker.targetsThrough root
    (root.edges.filter fun edge => root.document.lineNumber edge.offset == line)
    (fun _ => true) none state

/-- The directives of a root file with the number of targets that each of them reaches, asked one
after the other. -/
def anchorsFor (walker : Walker σ) (root : TargetFile) :
    List IncludeEdge → σ → List IncludeAnchor × σ
  | [], state => ([], state)
  | edge :: edges, state =>
    let (targets, state) := walker.targetsThrough root [edge] (fun _ => true) none state
    let (later, state) := walker.anchorsFor root edges state
    (⟨root.document.lineAt edge.offset, edge.argument, targets.length⟩ :: later, state)

/-- The directives of a root file with the number of targets that each of them reaches. -/
def includeAnchors (walker : Walker σ) (root : TargetFile) (state : σ) :
    List IncludeAnchor × σ :=
  walker.anchorsFor root root.edges state

end Walker

end BuildTargets
