import BuildTargets.Proofs.Path.NormalForm
import BuildTargets.Proofs.Walk.Failures
import BuildTargets.Proofs.Walk.View

/-!
# What a scan lists

A scan lists a file for every path of its search that can be loaded, in the order of the search but
for the active file. Its groups and its notices follow from this list: where answers do not depend
on the state, neither the files before one nor the failures among them change what it is listed
with.
-/

namespace BuildTargets

variable {σ : Type}

theorem Source.Gives.looks {source : Source σ} {answers : Answers} (gives : source.Gives answers) :
    source.Looks fun _ => () where
  find base patterns excludes :=
    ⟨fun _ => rfl, fun _ => by rw [gives.find_eq, gives.find_eq]⟩
  load path := ⟨fun _ => rfl, fun _ => by rw [gives.load_eq, gives.load_eq]⟩
  note _ _ := rfl

/-! ## The active file -/

/-- The first path that is wanted goes to the front, if there is one; the others keep their
order. -/
inductive FirstToFront (wanted : Path → Prop) : List Path → List Path → Prop where
  | absent {paths : List Path} (none : ∀ path ∈ paths, ¬ wanted path) :
      FirstToFront wanted paths paths
  | moved {before behind : List Path} {path : Path} (first : ∀ other ∈ before, ¬ wanted other)
      (found : wanted path) :
      FirstToFront wanted (before ++ path :: behind) (path :: (before ++ behind))

namespace Workspace

variable {workspace : Workspace σ} {answers : Answers}

theorem firstToFront_activeFirst {active : Path} (normal : active.normalize = active)
    (paths : List Path) :
    FirstToFront (fun path => path.normalize = active) paths (activeFirst active paths) := by
  have wanted_iff : ∀ path : Path, path.normalize.same active = true ↔ path.normalize = active := by
    intro path
    rw [← normal, Path.normalize_same_iff]
  rw [activeFirst]
  split
  · next path found =>
    obtain ⟨wanted, before, behind, rfl, unwanted⟩ := List.find?_eq_some_iff_append.1 found
    have first : ∀ other ∈ before, ¬ other.normalize.same active = true := by
      intro other mem
      simpa using unwanted other mem
    have erased : (path :: behind).eraseP (fun other => other.normalize.same active) = behind :=
      List.eraseP_cons_of_pos wanted
    rw [List.eraseP_append_right _ first, erased]
    exact .moved (fun other mem => mt (wanted_iff other).2 (first other mem))
      ((wanted_iff path).1 wanted)
  · next none =>
    refine .absent fun path mem wanted => ?_
    exact List.find?_eq_none.1 none path mem ((wanted_iff path).2 wanted)

/-- The paths of a search in the order in which they are loaded. -/
def ordered (workspace : Workspace σ) (active : Option Path) (paths : List Path) : List Path :=
  match active with
  | some path => activeFirst (workspace.resolve path) paths
  | none => paths

theorem firstToFront_ordered (active : Option Path) (paths : List Path) :
    FirstToFront (fun path => ∃ given ∈ active, path.normalize = workspace.resolve given) paths
      (workspace.ordered active paths) := by
  cases active with
  | none => exact .absent fun _ _ ⟨_, given, _⟩ => by cases given
  | some given =>
    have normal : (workspace.resolve given).normalize = workspace.resolve given :=
      Path.normalize_normalize _
    simpa [ordered] using firstToFront_activeFirst normal paths

/-! ## Files and groups -/

/-- What a scan lists for a path, if it can be loaded. -/
def entry? (workspace : Workspace σ) (answers : Answers) (grammar : Grammar) (path : Path) :
    Option WorkspaceFile :=
  (answers.load path).toOption.map fun document => ⟨workspace.label path, ⟨document, grammar⟩⟩

theorem loadAll_gives (gives : workspace.source.Gives answers) (grammar : Grammar)
    (paths : List Path) (state : σ) :
    (workspace.loadAll grammar paths state).1 =
      paths.filterMap (workspace.entry? answers grammar) := by
  induction paths generalizing state with
  | nil => rfl
  | cons path paths ih =>
    have given := gives.load_eq path state
    rw [loadAll, List.filterMap_cons, entry?, ← given]
    rcases workspace.source.load path state with ⟨cause | document, later⟩
    · exact ih _
    · exact congrArg _ (ih later)

theorem targetsOf_gives (gives : workspace.source.Gives answers) (entries : List WorkspaceFile)
    (state any : σ) :
    (workspace.targetsOf entries state).1 =
      entries.map fun entry => ⟨entry, (workspace.walker.allTargets entry.file any).1⟩ := by
  induction entries generalizing state with
  | nil => rfl
  | cons entry entries ih =>
    have looks : Looks (fun _ => ()) (workspace.walker.allTargets entry.file) :=
      Walker.occurrences_looks gives.looks entry.file (fun _ => true) none
    have same : (workspace.walker.allTargets entry.file state).1 =
        (workspace.walker.allTargets entry.file any).1 := looks.same rfl
    rw [targetsOf, List.map_cons, ← ih, ← same]

/-- **A scan loses and invents nothing.** Its files are those of the paths found that can be loaded,
as often as they were found and in that order, but for the active one, which comes first. Each of
them has a group, with all its targets, and the notices say that there are no files or that a file
has no targets. No fault of a single file makes a scan fail. -/
theorem scan_lists_what_opens (workspace : Workspace σ) (answers : Answers)
    (gives : workspace.source.Gives answers) (runner : String) (settings : RunnerSettings)
    (usable : workspace.settings.runner runner = .ok settings) (grammar : Grammar)
    (known : workspace.grammars.get runner = .ok grammar) (paths : List Path)
    (search : answers.find workspace.root settings.workspacePatterns
      workspace.settings.excludedFolders = .ok paths) (active : Option Path) (state any : σ) :
    let ordered := workspace.ordered active paths
    let entries := ordered.filterMap (workspace.entry? answers grammar)
    let notices : List Notice := if entries.isEmpty then [.noFilesFound runner] else []
    let groups : List FileTargets := entries.map fun entry =>
      ⟨entry, (workspace.walker.allTargets entry.file any).1⟩
    let empty := groups.filter fun group => group.targets.isEmpty
    FirstToFront (fun path => ∃ given ∈ active, path.normalize = workspace.resolve given) paths
        ordered ∧
      (workspace.targetFiles runner active state).1 = .ok ⟨entries, notices⟩ ∧
      (workspace.allTargets runner active state).1 =
        .ok ⟨groups, notices ++ empty.map fun group => .noTargetsFound group.entry.file.path⟩ := by
  intro ordered entries notices groups empty
  have found : workspace.source.find workspace.root settings.workspacePatterns
      workspace.settings.excludedFolders state = (.ok paths, _) :=
    Prod.ext ((gives.find_eq _ _ _ state).trans search) rfl
  have files : (workspace.targetFiles runner active state).1 = .ok ⟨entries, notices⟩ := by
    rw [targetFiles, usable, known]
    dsimp only
    rw [found]
    dsimp only
    rw [loadAll_gives gives]
    rfl
  have targets := targetsOf_gives gives entries (workspace.targetFiles runner active state).2 any
  refine ⟨firstToFront_ordered active paths, files, ?_⟩
  rw [allTargets]
  generalize workspace.targetFiles runner active state = scanned at files targets
  obtain ⟨_, later⟩ := scanned
  subst files
  dsimp only at targets ⊢
  rw [targets]

/-- Answers with a path that cannot be loaded and one that is found twice. -/
def shelf : Answers where
  find _ _ _ :=
    .ok [⟨"/p/b/Makefile"⟩, ⟨"/p/gone/Makefile"⟩, ⟨"/p/a/./Makefile"⟩, ⟨"/p/b/Makefile"⟩]
  load path :=
    if path.text = "/p/gone/Makefile" then .error (.documentNotFound path .missing)
    else .ok ⟨path, "all:\n"⟩

def shelfWorkspace : Workspace Nat where
  root := ⟨"/p"⟩
  settings := .standard
  grammars := .builtin
  source := {
    find := fun base patterns excludes count => (shelf.find base patterns excludes, count)
    load := fun path count => (shelf.load path, count)
    note := fun _ count => count + 1 }
  limit := 1

/-- The active file, given as seen from the project, is listed first under the spelling that was
found; the file that was found twice is listed twice, and the one that cannot be loaded is left
out. -/
theorem respelled_active_first : ∃ files groups,
    (shelfWorkspace.targetFiles "make" (some ⟨"x/../a/Makefile"⟩) 0).1 = .ok files ∧
      (files.items.map fun item => (item.label, item.file.path.text)) =
        [("a", "/p/a/./Makefile"), ("b", "/p/b/Makefile"), ("b", "/p/b/Makefile")] ∧
      files.notices = [] ∧
      (shelfWorkspace.allTargets "make" (some ⟨"x/../a/Makefile"⟩) 0).1 = .ok groups ∧
      (groups.items.map fun group => group.entry.label) = ["a", "b", "b"] := by
  have gives : shelfWorkspace.source.Gives shelf := ⟨fun _ _ _ _ => rfl, fun _ _ => rfl⟩
  obtain ⟨-, files, groups⟩ := scan_lists_what_opens shelfWorkspace shelf gives "make" .make rfl
    .make rfl _ rfl (some ⟨"x/../a/Makefile"⟩) 0 0
  refine ⟨_, _, files, by decide +kernel, by decide +kernel, groups, ?_⟩
  dsimp only
  rw [List.map_map]
  decide +kernel

end Workspace

end BuildTargets
