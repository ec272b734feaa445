import BuildTargets.Proofs.Path.NormalForm
import BuildTargets.Proofs.Walk.Visited

/-!
# Visited paths that count

Before it enters a path, a walk looks for the normal form of the path among the visited ones. What
it has entered itself is written down in normal form; paths that count as entered from the start are
kept as they are given. So of these only those count that are in normal form, and another spelling
of the same path does not keep the walk out.
-/

namespace BuildTargets

/-! ## Spellings -/

namespace Path

/-- Whether a path has the components of its normal form. -/
def isFolded (path : Path) : Bool := path.normalize.same path

/-- Two lists of paths have the same normal forms. -/
def SameForms (paths others : List Path) : Prop :=
  ∀ form, form ∈ paths.map normalize ↔ form ∈ others.map normalize

theorem SameForms.of_eq {paths others : List Path}
    (h : paths.map normalize = others.map normalize) : SameForms paths others := by
  intro form
  rw [h]

/-- A normal form is found among paths exactly if one of them is in normal form and has it. -/
theorem any_same_iff {path : Path} {paths : List Path} :
    paths.any path.normalize.same = true ↔
      path.normalize ∈ (paths.filter isFolded).map normalize := by
  rw [List.any_eq_true, List.mem_map]
  constructor
  · rintro ⟨other, mem, same⟩
    have form : other.normalize = path.normalize := by
      rw [← normalize_congr same, normalize_normalize]
    refine ⟨other, List.mem_filter.2 ⟨mem, ?_⟩, form⟩
    rw [isFolded, form, same]
  · rintro ⟨other, kept, form⟩
    obtain ⟨mem, folded⟩ := List.mem_filter.1 kept
    exact ⟨other, mem, form ▸ folded⟩

end Path

variable {σ : Type} {walker : Walker σ}

/-! ## Walks in step -/

namespace Walk

variable {walk after twin : Walk} {state later : σ} {included : IncludedFile}

/-- Two walks have the same files under way, and the same paths are visited in both. -/
structure InStep (walk twin : Walk) : Prop where
  recursive : twin.recursive = walk.recursive
  stack : twin.stack = walk.stack
  visited : ∀ path, twin.hasVisited path = walk.hasVisited path

theorem hasVisited_enter {recursive recursive' : Bool} {visited visited' : List Path}
    {stack stack' : List Frame} (entered : Path)
    (same : ∀ path : Path, visited'.any path.normalize.same = visited.any path.normalize.same)
    (path : Path) :
    hasVisited ⟨recursive', entered :: visited', stack'⟩ path =
      hasVisited ⟨recursive, entered :: visited, stack⟩ path := by
  rw [hasVisited, hasVisited, List.any_cons, List.any_cons, same]

theorem Again.inStep (h : Again walker walk state after later) (step : InStep walk twin) :
    ∃ after', Again walker twin state after' later ∧ InStep after after' := by
  obtain ⟨recursive', visited', stack'⟩ := twin
  obtain ⟨rfl, rfl, same⟩ := step
  cases h with
  | visited old => exact ⟨_, .visited ((same _).trans old), rfl, rfl, same⟩
  | notLoaded new load =>
    exact ⟨_, .notLoaded ((same _).trans new) load, rfl, rfl, hasVisited_enter _ same⟩
  | searched find => exact ⟨_, .searched find, rfl, rfl, same⟩
  | notSearched find => exact ⟨_, .notSearched find, rfl, rfl, same⟩
  | done => exact ⟨_, .done, rfl, rfl, same⟩

theorem Found.inStep (h : Found walker walk state included after later) (step : InStep walk twin) :
    ∃ after', Found walker twin state included after' later ∧ InStep after after' := by
  obtain ⟨recursive', visited', stack'⟩ := twin
  obtain ⟨rfl, rfl, same⟩ := step
  cases h with
  | loaded new load =>
    exact ⟨_, .loaded ((same _).trans new) load, rfl, rfl, hasVisited_enter _ same⟩

/-- Walks in step give the same file, and are in step behind it. -/
theorem next?_inStep (step : InStep walk twin) (state : σ) :
    match next? walker walk state with
    | (none, final) => next? walker twin state = (none, final)
    | (some (included, after), later) =>
      ∃ after', next? walker twin state = (some (included, after'), later) ∧
        InStep after after' := by
  fun_induction next? walker walk state generalizing twin with
  | case1 walk state ended =>
    have none_left : twin.stack = [] := step.stack.trans (stack_of_round ended)
    obtain ⟨recursive, visited, stack⟩ := twin
    obtain rfl : stack = [] := none_left
    exact next?_of_ended rfl
  | case2 walk state after later again ih =>
    obtain ⟨after', again', step'⟩ := (again_of_round again).inStep step
    rw [next?_of_again (round_of_again again')]
    exact ih step'
  | case3 walk state included after later found =>
    obtain ⟨after', found', step'⟩ := (found_of_round found).inStep step
    exact ⟨after', next?_of_found (round_of_found found'), step'⟩

theorem gather_inStep {α : Type} (items : IncludedFile → List α) (fuel : Nat)
    (count : Option Nat) (step : InStep walk twin) (state : σ) :
    gather walker items fuel count twin state = gather walker items fuel count walk state := by
  induction fuel generalizing count walk twin state with
  | zero => rw [gather_zero, gather_zero]
  | succ fuel ih =>
    by_cases more : count = some 0
    · subst more
      rfl
    · have pulled := @next?_inStep σ walker walk twin step state
      rw [gather_more items fuel more, gather_more items fuel more]
      generalize next? walker walk state = pull at pulled ⊢
      obtain ⟨_ | ⟨included, after⟩, later⟩ := pull
      · rw [pulled]
      · obtain ⟨after', same, step'⟩ := pulled
        rw [same]
        dsimp only
        rw [ih _ step']

/-- Walks from the same root are in step if the same paths in normal form count as entered. -/
theorem inStep_start (root : TargetFile) (edges : List IncludeEdge) (recursive : Bool)
    {visited others : List Path}
    (same : Path.SameForms (visited.filter Path.isFolded) (others.filter Path.isFolded)) :
    InStep (start root edges recursive visited) (start root edges recursive others) where
  recursive := rfl
  stack := rfl
  visited := by
    refine hasVisited_enter root.path.normalize fun path => ?_
    rw [Bool.eq_iff_iff, Path.any_same_iff, Path.any_same_iff, same]

end Walk

/-! ## Paths given from the start -/

/-- **Visited paths count in normal form.** Two lists of visited paths of which those in normal form
are the same ones give the same files and the same state, and the source is asked the same questions
in the same order. No path is loaded whose normal form is that of a visited path in normal form. -/
theorem visited_counts_in_normal_form (walker : Walker σ) (root : TargetFile) (recursive : Bool)
    (visited others : List Path)
    (same : Path.SameForms (visited.filter Path.isFolded) (others.filter Path.isFolded))
    (count : Option Nat) (state : σ) :
    let walk := fun entered =>
      walker.recorded.includedFiles root recursive entered count (state, [])
    walk visited = walk others ∧
      ∀ path ∈ loads (walk visited).2.2, ∀ entered ∈ visited, entered.isFolded = true →
        path.normalize ≠ entered.normalize := by
  refine ⟨(Walk.gather_inStep _ _ _ (Walk.inStep_start root _ recursive same) _).symm, ?_⟩
  intro path asked entered given folded form
  have start : Walk.LoadsOnce (root.path.normalize :: visited)
      (Walk.start root root.edges recursive visited).visited ((state, []) : σ × List Question).2 :=
    ⟨rfl, .nil, by simp [loads]⟩
  obtain ⟨_, once⟩ := (Walk.loadsOnce_invariant walker _).gathered
    (fun included => [included]) walker.limit count start
  have apart : path.normalize.same entered = false :=
    once.fresh path asked entered (List.mem_cons_of_mem _ given)
  rw [form, show entered.normalize.same entered = true from folded] at apart
  cases apart

theorem paths_of_filesWithin? {walker : Walker σ} {root : TargetFile} {recursive : Bool}
    {visited paths : List Path} {state : σ} (rounds : Nat)
    (within : (Walk.filesWithin? walker rounds (.start root root.edges recursive visited) state).map
      (fun files => files.map fun included => included.file.path) = some paths) :
    (walker.includedFiles root recursive visited none state).1.map
      (fun included => included.file.path) = paths.take walker.limit := by
  obtain ⟨files, ended, rfl⟩ := Option.map_eq_some_iff.1 within
  obtain ⟨_, ends⟩ := Walk.ends_of_filesWithin? ended
  rw [← List.map_take]
  exact congrArg (List.map _) (ends.pulled_eq walker.limit)

/-- The walker over a tree of files; it enters three of them at most. -/
def treeWalker : Walker FileSystem := ⟨.ofFiles id fun _ files => files, [], 3⟩

/-- A project whose Makefile includes a file of a directory and one beside it. -/
def belowRoot : FileSystem where
  root := .directory
    [("Makefile", .file "include lib/one.mk\ninclude two.mk\n".toUTF8),
      ("lib", .directory [("one.mk", .file "one:\n".toUTF8)]), ("two.mk", .file "two:\n".toUTF8)]
  workingDirectory := []

def belowRootFile : TargetFile :=
  ⟨⟨⟨"Makefile"⟩, "include lib/one.mk\ninclude two.mk\n"⟩, .make⟩

/-- A doubled separator does not change what a visited path counts as: the included file is not
entered again, whichever way it is written. A path that is not in normal form does not count. -/
theorem doubled_separator_counts :
    let walk := fun entered =>
      treeWalker.recorded.includedFiles belowRootFile true entered none (belowRoot, [])
    let doubled : List Path := [⟨"lib//one.mk"⟩, ⟨"./two.mk"⟩]
    walk doubled = walk [⟨"lib/one.mk"⟩] ∧
      (walk []).1.map (fun included => included.file.path) = [⟨"lib/one.mk"⟩, ⟨"two.mk"⟩] ∧
      (walk doubled).1.map (fun included => included.file.path) = [⟨"two.mk"⟩] ∧
      ∀ path ∈ loads (walk doubled).2.2, path.normalize ≠ ⟨"lib/one.mk"⟩ := by
  intro walk doubled
  obtain ⟨same, unloaded⟩ := visited_counts_in_normal_form treeWalker belowRootFile true doubled
    [⟨"lib/one.mk"⟩] (.of_eq (by decide +kernel)) none belowRoot
  have folded : (⟨"lib//one.mk"⟩ : Path).isFolded = true := by decide +kernel
  have form : (⟨"lib//one.mk"⟩ : Path).normalize = ⟨"lib/one.mk"⟩ := by decide +kernel
  have within : ∀ visited paths,
      (Walk.filesWithin? treeWalker.recorded 9
        (.start belowRootFile belowRootFile.edges true visited) (belowRoot, [])).map
          (fun files => files.map fun included => included.file.path) = some paths →
        (walk visited).1.map (fun included => included.file.path) = paths.take 3 :=
    fun _ _ => paths_of_filesWithin? 9
  refine ⟨same, within _ [_, _] (by decide +kernel), within _ [_] (by decide +kernel),
    fun path loaded => ?_⟩
  rw [← form]
  exact unloaded path loaded _ (List.mem_cons_self ..) folded

def besideRoot : FileSystem where
  root := .directory
    [("Makefile", .file "include one.mk\ninclude two.mk\n".toUTF8),
      ("one.mk", .file "one:\n".toUTF8), ("two.mk", .file "two:\n".toUTF8)]
  workingDirectory := []

def besideRootFile : TargetFile := ⟨⟨⟨"Makefile"⟩, "include one.mk\ninclude two.mk\n"⟩, .make⟩

/-- The path of a file beside the root does not count if it is made from the root's directory. -/
theorem joined_visited_path_does_not_count :
    let walk := fun entered =>
      treeWalker.includedFiles besideRootFile true entered none besideRoot
    let joined : Path := besideRootFile.directory.join ⟨"one.mk"⟩
    Path.SameForms [joined] [⟨"one.mk"⟩] ∧ walk [joined] ≠ walk [⟨"one.mk"⟩] := by
  intro walk joined
  refine ⟨.of_eq (by decide +kernel), fun equal => ?_⟩
  have two : (walk [joined]).1.map (fun included => included.file.path) =
      List.take 3 [⟨"one.mk"⟩, ⟨"two.mk"⟩] :=
    paths_of_filesWithin? 9 (by decide +kernel)
  have one : (walk [⟨"one.mk"⟩]).1.map (fun included => included.file.path) =
      List.take 3 [⟨"two.mk"⟩] :=
    paths_of_filesWithin? 9 (by decide +kernel)
  rw [equal, one] at two
  exact absurd two (by decide)

end BuildTargets
