import BuildTargets.Proofs.Walk.Run

/-!
# The walk as a recursive traversal

A traversal is the recursive reading of a walk: `enterEdges` goes through directives in order and
`enterPaths` through the paths that one of them leads to, each file followed by what it includes in
turn. A traversal is asked for a number of files and does nothing more once it has given them, so
it can be compared with a walk that is pulled as often, also where neither comes to an end.
`Source.recorded` writes down what a source is asked.
-/

namespace BuildTargets

variable {σ : Type}

/-! ## Questions to a source -/

/-- What a source is asked. -/
inductive Question where
  | find (base : Path) (patterns excludes : List String)
  | load (path : Path)
deriving DecidableEq

/-- The source that also writes down, in order, what it is asked. -/
def Source.recorded (source : Source σ) : Source (σ × List Question) where
  find base patterns excludes := fun (state, asked) =>
    let (answer, state) := source.find base patterns excludes state
    (answer, state, asked ++ [.find base patterns excludes])
  load path := fun (state, asked) =>
    let (answer, state) := source.load path state
    (answer, state, asked ++ [.load path])
  note remark := fun (state, asked) => (source.note remark state, asked)

def Walker.recorded (walker : Walker σ) : Walker (σ × List Question) where
  source := walker.source.recorded
  excludes := walker.excludes
  limit := walker.limit

/-! ## Traversals -/

/-- A stretch of a traversal: the files it gave, the paths visited by its end, and the state
behind it. -/
structure Passage (σ : Type) where
  files : List IncludedFile
  visited : List Path
  state : σ

namespace Walker

mutual

/-- Goes through the paths that the directive at byte `offset` of `file` leads to, of which the
visited ones are left out, until `demand` files are given. -/
def enterPaths (walker : Walker σ) (recursive : Bool) (file : TargetFile) (depth offset : Nat)
    (demand : Nat) (paths visited : List Path) (state : σ) : Passage σ :=
  match demand, paths with
  | 0, _ => ⟨[], visited, state⟩
  | _, [] => ⟨[], visited, state⟩
  | demand + 1, path :: paths =>
    if path.normalize.components ∈ visited.map Path.components then
      enterPaths walker recursive file depth offset (demand + 1) paths visited state
    else
      match walker.source.load path state with
      | (.error cause, state) =>
        enterPaths walker recursive file depth offset (demand + 1) paths
          (path.normalize :: visited) (walker.source.note (.includeNotLoaded path cause) state)
      | (.ok document, state) =>
        let inner : TargetFile := ⟨document, file.grammar⟩
        let below :=
          if recursive then
            enterEdges walker recursive inner (depth + 1) demand inner.edges
              (path.normalize :: visited) state
          else ⟨[], path.normalize :: visited, state⟩
        let rest := enterPaths walker recursive file depth offset (demand - below.files.length)
          paths below.visited below.state
        ⟨⟨inner, ⟨file.document, offset⟩, depth + 1⟩ :: (below.files ++ rest.files),
          rest.visited, rest.state⟩
termination_by (demand, 0, paths.length)
decreasing_by
  · exact .right _ (.right _ (Nat.lt_succ_self _))
  · exact .right _ (.right _ (Nat.lt_succ_self _))
  · exact .left _ _ (Nat.lt_succ_self _)
  · exact .left _ _ (Nat.lt_succ_of_le (Nat.sub_le _ _))

/-- Goes through some directives of `file`, each of which is searched for in its directory, until
`demand` files are given. -/
def enterEdges (walker : Walker σ) (recursive : Bool) (file : TargetFile) (depth : Nat)
    (demand : Nat) (edges : List IncludeEdge) (visited : List Path) (state : σ) : Passage σ :=
  match demand, edges with
  | 0, _ => ⟨[], visited, state⟩
  | _, [] => ⟨[], visited, state⟩
  | demand + 1, edge :: edges =>
    match walker.source.find file.directory [edge.argument] walker.excludes state with
    | (.error cause, state) =>
      enterEdges walker recursive file depth (demand + 1) edges visited
        (walker.source.note (.includeNotSearched edge.argument file.path cause) state)
    | (.ok paths, state) =>
      let first :=
        enterPaths walker recursive file depth edge.offset (demand + 1) paths visited state
      let rest := enterEdges walker recursive file depth (demand + 1 - first.files.length) edges
        first.visited first.state
      ⟨first.files ++ rest.files, rest.visited, rest.state⟩
termination_by (demand, edges.length, 0)
decreasing_by
  · exact .right _ (.left _ _ (Nat.lt_succ_self _))
  · exact .right _ (.left _ _ (Nat.succ_pos _))
  · exact Prod.Lex.right' _ (Nat.sub_le _ _) (.left _ _ (Nat.lt_succ_self _))

end

@[simp] theorem enterPaths_zero (walker : Walker σ) (recursive : Bool) (file : TargetFile)
    (depth offset : Nat) (paths visited : List Path) (state : σ) :
    walker.enterPaths recursive file depth offset 0 paths visited state = ⟨[], visited, state⟩ := by
  rw [enterPaths]

@[simp] theorem enterPaths_nil (walker : Walker σ) (recursive : Bool) (file : TargetFile)
    (depth offset demand : Nat) (visited : List Path) (state : σ) :
    walker.enterPaths recursive file depth offset demand [] visited state =
      ⟨[], visited, state⟩ := by
  cases demand <;> rw [enterPaths]; simp

@[simp] theorem enterEdges_zero (walker : Walker σ) (recursive : Bool) (file : TargetFile)
    (depth : Nat) (edges : List IncludeEdge) (visited : List Path) (state : σ) :
    walker.enterEdges recursive file depth 0 edges visited state = ⟨[], visited, state⟩ := by
  rw [enterEdges]

@[simp] theorem enterEdges_nil (walker : Walker σ) (recursive : Bool) (file : TargetFile)
    (depth demand : Nat) (visited : List Path) (state : σ) :
    walker.enterEdges recursive file depth demand [] visited state = ⟨[], visited, state⟩ := by
  cases demand <;> rw [enterEdges]; simp

/-- What is left of a traversal where a walk stands: for each file under way, innermost first, the
paths found last and then the directives after them. -/
def resume (walker : Walker σ) (recursive : Bool) :
    (demand : Nat) → List Frame → List Path → σ → Passage σ
  | _, [], visited, state => ⟨[], visited, state⟩
  | demand, frame :: below, visited, state =>
    let found := walker.enterPaths recursive frame.file frame.depth frame.siteOffset demand
      frame.pending visited state
    let sought := walker.enterEdges recursive frame.file frame.depth
      (demand - found.files.length) frame.edges found.visited found.state
    let rest := walker.resume recursive (demand - found.files.length - sought.files.length) below
      sought.visited sought.state
    ⟨found.files ++ (sought.files ++ rest.files), rest.visited, rest.state⟩

end Walker

/-! ## Simulation -/

namespace Walk

variable {walker : Walker σ}

theorem hasVisited_eq (walk : Walk) (path : Path) :
    walk.hasVisited path =
      decide (path.normalize.components ∈ walk.visited.map Path.components) := by
  rw [Bool.eq_iff_iff, decide_eq_true_eq, List.mem_map]
  simp only [hasVisited, List.any_eq_true, Path.same, beq_iff_eq,
    eq_comm (a := path.normalize.components)]

/-- A round without a file leaves the rest of the traversal as it is. -/
theorem Again.resume_eq {walk after : Walk} {state later : σ}
    (h : Again walker walk state after later) (demand : Nat) :
    walker.resume walk.recursive (demand + 1) walk.stack walk.visited state =
      walker.resume after.recursive (demand + 1) after.stack after.visited later := by
  cases h with
  | visited old =>
    rw [hasVisited_eq, decide_eq_true_eq] at old
    simp only [Walker.resume]
    rw [Walker.enterPaths, if_pos old]
  | notLoaded new load =>
    rw [hasVisited_eq, decide_eq_false_iff_not] at new
    simp only [Walker.resume]
    rw [Walker.enterPaths, if_neg new, load]
  | searched find =>
    simp only [Walker.resume, Walker.enterPaths_nil, List.length_nil, Nat.sub_zero]
    rw [Walker.enterEdges, find]
    simp [Nat.sub_sub]
  | notSearched find =>
    simp only [Walker.resume, Walker.enterPaths_nil, List.length_nil, Nat.sub_zero]
    rw [Walker.enterEdges, find]
  | done => simp [Walker.resume]

theorem Found.resume_eq {walk after : Walk} {state later : σ} {included : IncludedFile}
    (h : Found walker walk state included after later) (demand : Nat) :
    let rest := walker.resume after.recursive demand after.stack after.visited later
    walker.resume walk.recursive (demand + 1) walk.stack walk.visited state =
      ⟨included :: rest.files, rest.visited, rest.state⟩ := by
  cases h with
  | @loaded recursive _ _ _ _ _ _ _ _ _ _ _ new load =>
    rw [hasVisited_eq, decide_eq_false_iff_not] at new
    simp only [Walker.resume]
    rw [Walker.enterPaths, if_neg new, load]
    cases recursive <;> simp [Walker.resume, Nat.sub_sub]

theorem resume_zero (recursive : Bool) (frames : List Frame) (visited : List Path) (state : σ) :
    walker.resume recursive 0 frames visited state = ⟨[], visited, state⟩ := by
  induction frames with
  | nil => rfl
  | cons frame below ih => simp [Walker.resume, ih]

/-- Pulling a file takes the first file off the rest of the traversal, if there is one. -/
theorem next?_resume (walk : Walk) (state : σ) (demand : Nat) :
    let all := walker.resume walk.recursive (demand + 1) walk.stack walk.visited state
    match next? walker walk state with
    | (none, final) => all.files = [] ∧ all.state = final
    | (some (included, after), later) =>
      let rest := walker.resume after.recursive demand after.stack after.visited later
      all.files = included :: rest.files ∧ all.state = rest.state := by
  fun_induction next? walker walk state with
  | case1 walk state h =>
    obtain ⟨recursive, visited, stack⟩ := walk
    obtain rfl : stack = [] := stack_of_round h
    exact ⟨rfl, rfl⟩
  | case2 walk state after later h ih =>
    rw [(again_of_round h).resume_eq]
    exact ih
  | case3 walk state included after later h =>
    rw [(found_of_round h).resume_eq]
    exact ⟨rfl, rfl⟩

/-- The files pulled out of a walk are those that the rest of the traversal gives, and the state
is the same behind both. -/
theorem gather_eq_resume (demand : Nat) (walk : Walk) (state : σ) :
    gather walker (fun included => [included]) demand none walk state =
      let rest := walker.resume walk.recursive demand walk.stack walk.visited state
      (rest.files, rest.state) := by
  induction demand generalizing walk state with
  | zero => rw [resume_zero]; rfl
  | succ demand ih =>
    have step := @next?_resume σ walker walk state demand
    rw [gather_succ]
    generalize next? walker walk state = pulled at step ⊢
    obtain ⟨_ | ⟨included, after⟩, later⟩ := pulled
    · obtain ⟨files, final⟩ := step
      simp only [files, final]
    · obtain ⟨files, final⟩ := step
      simp only [files, final, ih]
      rfl

/-- A walk with fewer files than are pulled has come to its end: pulling more changes nothing. -/
theorem gather_of_short {α : Type} (items : IncludedFile → List α) {fuel more : Nat} {walk : Walk}
    {state : σ}
    (short : (gather walker (fun included => [included]) fuel none walk state).1.length < fuel)
    (le : fuel ≤ more) :
    gather walker items more none walk state = gather walker items fuel none walk state := by
  induction fuel generalizing more walk state with
  | zero => exact absurd short (Nat.not_lt_zero _)
  | succ fuel ih =>
    obtain ⟨more, rfl⟩ : ∃ n, more = n + 1 := ⟨more - 1, by omega⟩
    rw [gather_succ] at short
    rw [gather_succ, gather_succ]
    generalize next? walker walk state = pulled at short ⊢
    obtain ⟨_ | ⟨included, after⟩, later⟩ := pulled
    · rfl
    · dsimp only at short ⊢
      rw [ih (by simpa using short) (by omega)]

end Walk

/-- **A walk is the recursive traversal.** However many files are pulled out of a walk, they are
those that the traversal gives when it is asked for as many, the source has by then been asked the
same questions, and it is left in the same state. A traversal that gives fewer files than it is
asked for has come to its end. -/
theorem pulled_files_eq_traversal (walker : Walker σ) (root : TargetFile)
    (edges : List IncludeEdge) (recursive : Bool) (visited : List Path) (state : σ)
    (asked : List Question) :
    let traversal := fun demand => walker.recorded.enterEdges recursive root 0 demand edges
      (root.path.normalize :: visited) (state, asked)
    (∀ demand,
      Walk.gather walker.recorded (fun included => [included]) demand none
        (Walk.start root edges recursive visited) (state, asked) =
          ((traversal demand).files, (traversal demand).state)) ∧
    ∀ demand more, (traversal demand).files.length < demand → demand ≤ more →
      (traversal more).files = (traversal demand).files ∧
        (traversal more).state = (traversal demand).state := by
  intro traversal
  have pulled : ∀ demand,
      Walk.gather walker.recorded (fun included => [included]) demand none
        (Walk.start root edges recursive visited) (state, asked) =
          ((traversal demand).files, (traversal demand).state) := by
    intro demand
    rw [Walk.gather_eq_resume]
    simp [traversal, Walk.start, Walker.resume]
  refine ⟨pulled, fun demand more short le => ?_⟩
  have same := Walk.gather_of_short (fun included => [included]) (by rw [pulled]; exact short) le
  rw [pulled, pulled, Prod.mk.injEq] at same
  exact same

end BuildTargets
