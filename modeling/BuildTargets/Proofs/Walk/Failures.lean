import BuildTargets.Proofs.Walk.Reach

/-!
# Failures only mean fewer files

A search that fails and a path that cannot be loaded take nothing away but what they would have
given themselves. The walk gives the same files, with the same directives and depths, as one without
faults, in which those searches find nothing and those paths are not found at all.

The two walks go the same way, but not in step: a round that enters a path in vain has no
counterpart in the walk without faults. And they have not visited the same paths: the ones entered
in vain are visited in the first walk only.
-/

namespace BuildTargets

/-! ## Answers without faults -/

/-- The source gives these answers, in every state. -/
structure Source.Gives {σ : Type} (source : Source σ) (answers : Answers) : Prop where
  find_eq : ∀ base patterns excludes state,
    (source.find base patterns excludes state).1 = answers.find base patterns excludes
  load_eq : ∀ path state, (source.load path state).1 = answers.load path

namespace Answers

def opens (answers : Answers) (path : Path) : Bool := (answers.load path).isOk

/-- The paths that a search finds and that can be loaded; none, if it fails. -/
def loadable (answers : Answers) : Except Fault (List Path) → List Path
  | .ok paths => paths.filter answers.opens
  | .error _ => []

/-- The answers without faults: a search that fails finds nothing, and none finds a path that cannot
be loaded. What is loaded there instead, `spare`, does not matter. -/
def flawless (answers : Answers) (spare : Path → Document) : Answers where
  find base patterns excludes := .ok (answers.loadable (answers.find base patterns excludes))
  load path :=
    match answers.load path with
    | .ok document => .ok document
    | .error _ => .ok (spare path)

def FindsNormal (answers : Answers) : Prop :=
  ∀ base patterns excludes paths, answers.find base patterns excludes = .ok paths →
    ∀ path ∈ paths, path.normalize = path

variable {answers : Answers} {spare : Path → Document}

theorem opens_of_load {path : Path} {document : Document} (h : answers.load path = .ok document) :
    answers.opens path = true := by
  rw [opens, h]
  rfl

theorem not_opens_of_load {path : Path} {cause : Fault} (h : answers.load path = .error cause) :
    answers.opens path = false := by
  rw [opens, h]
  rfl

theorem find_flawless (base : Path) (patterns excludes : List String) :
    (answers.flawless spare).find base patterns excludes =
      .ok (answers.loadable (answers.find base patterns excludes)) := rfl

theorem load_flawless {path : Path} {document : Document} (h : answers.load path = .ok document) :
    (answers.flawless spare).load path = .ok document := by
  rw [flawless]
  dsimp only
  rw [h]

end Answers

/-! ## Walks side by side -/

/-- A file under way without the paths that cannot be loaded. -/
def Frame.prune (opens : Path → Bool) (frame : Frame) : Frame :=
  { frame with pending := frame.pending.filter opens }

namespace Walk

variable {σ τ : Type} {walker : Walker σ} {other : Walker τ} {answers : Answers}
  {spare : Path → Document} {walk after twin : Walk} {state later : σ}

/-- The walk without faults that goes beside a walk: it has the same files under way, without the
paths that cannot be loaded, and has visited the same ones of those that can. -/
structure Beside (answers : Answers) (walk twin : Walk) : Prop where
  recursive : twin.recursive = walk.recursive
  stack : twin.stack = walk.stack.map (Frame.prune answers.opens)
  visited : ∀ path, answers.opens path = true → path.normalize = path →
    twin.hasVisited path = walk.hasVisited path
  normal : walk.PendingOnly fun path => path.normalize = path

theorem beside_start (answers : Answers) (root : TargetFile) (edges : List IncludeEdge)
    (recursive : Bool) (visited : List Path) :
    Beside answers (start root edges recursive visited) (start root edges recursive visited) where
  recursive := rfl
  stack := rfl
  visited _ _ _ := rfl
  normal := by simp [PendingOnly, start]

/-- The two walkers ask sources that give answers with and without faults, in the same way. -/
structure Agree (answers : Answers) (spare : Path → Document) (walker : Walker σ)
    (other : Walker τ) : Prop where
  gives : walker.source.Gives answers
  spared : other.source.Gives (answers.flawless spare)
  excludes : other.excludes = walker.excludes
  normal : answers.FindsNormal

namespace Agree

theorem find (agree : Agree answers spare walker other) {base : Path} {patterns : List String}
    {answer : Except Fault (List Path)}
    (h : walker.source.find base patterns walker.excludes state = (answer, later)) (state' : τ) :
    ∃ later', other.source.find base patterns other.excludes state' =
      (.ok (answers.loadable answer), later') := by
  have given : answers.find base patterns walker.excludes = answer := by
    rw [← agree.gives.find_eq base patterns walker.excludes state, h]
  have spared := agree.spared.find_eq base patterns other.excludes state'
  refine ⟨(other.source.find base patterns other.excludes state').2, Prod.ext ?_ rfl⟩
  rw [spared, agree.excludes, Answers.find_flawless, given]

theorem load (agree : Agree answers spare walker other) {path : Path}
    {answer : Except Fault Document} (h : walker.source.load path state = (answer, later)) :
    answers.load path = answer := by
  rw [← agree.gives.load_eq path state, h]

theorem load_spared (agree : Agree answers spare walker other) {path : Path} {document : Document}
    (h : answers.load path = .ok document) (state' : τ) :
    ∃ later', other.source.load path state' = (.ok document, later') := by
  refine ⟨(other.source.load path state').2, Prod.ext ?_ rfl⟩
  rw [agree.spared.load_eq, Answers.load_flawless h]

theorem findsNormal (agree : Agree answers spare walker other) :
    FindsOnly walker fun path => path.normalize = path := by
  intro base patterns excludes state paths later find path mem
  have found : answers.find base patterns excludes = .ok paths := by
    rw [← agree.gives.find_eq base patterns excludes state, find]
  exact agree.normal base patterns excludes paths found path mem

end Agree

/-- A path entered in vain is not missed among those that can be loaded. -/
theorem hasVisited_failed {recursive : Bool} {visited : List Path} {stack frames : List Frame}
    {failed path : Path} (normal : failed.normalize = failed)
    (fails : answers.opens failed = false) (opens : answers.opens path = true)
    (normal' : path.normalize = path) :
    hasVisited ⟨recursive, failed.normalize :: visited, stack⟩ path =
      hasVisited ⟨recursive, visited, frames⟩ path := by
  have apart : path.normalize.same failed.normalize = false := by
    rw [Bool.eq_false_iff]
    intro same
    have equal := Path.normalize_congr same
    rw [normal, normal', normal, normal'] at equal
    rw [equal, fails] at opens
    cases opens
  rw [hasVisited_cons recursive visited stack frames, apart, Bool.false_or]

theorem Beside.again (agree : Agree answers spare walker other)
    (h : Again walker walk state after later) (beside : Beside answers walk twin) (state' : τ) :
    ∃ twin' later', Beside answers after twin' ∧
      next? other twin state' = next? other twin' later' := by
  have normal := (pendingOnly_invariant agree.findsNormal).again h beside.normal
  obtain ⟨recursive', visited', stack'⟩ := twin
  obtain ⟨rfl, rfl, visited, pending⟩ := beside
  cases h with
  | @visited _ _ _ _ _ path _ _ _ _ old =>
    have first := (pendingOnly_cons.1 pending).1 path List.mem_cons_self
    by_cases opens : answers.opens path = true
    · have old' := (visited path opens first).trans old
      rw [List.map_cons, Frame.prune, List.filter_cons_of_pos opens] at *
      refine ⟨_, state', ?_, next?_of_again (round_of_again (.visited old'))⟩
      exact ⟨rfl, rfl, visited, normal⟩
    · rw [List.map_cons, Frame.prune, List.filter_cons_of_neg opens] at *
      refine ⟨_, state', ?_, rfl⟩
      exact ⟨rfl, rfl, visited, normal⟩
  | @notLoaded _ _ _ _ _ path _ _ _ _ _ _ _ load =>
    have first := (pendingOnly_cons.1 pending).1 path List.mem_cons_self
    have fails := Answers.not_opens_of_load (agree.load load)
    rw [List.map_cons, Frame.prune, List.filter_cons_of_neg (by rw [fails]; decide)] at *
    refine ⟨_, state', ?_, rfl⟩
    refine ⟨rfl, rfl, fun other opens normal' => (visited other opens normal').trans ?_, normal⟩
    exact (hasVisited_failed first fails opens normal').symm
  | searched find | notSearched find =>
    obtain ⟨later', find'⟩ := agree.find find state'
    refine ⟨_, later', ?_, next?_of_again (round_of_again (.searched find'))⟩
    exact ⟨rfl, rfl, visited, normal⟩
  | done =>
    refine ⟨_, state', ?_, next?_of_again (round_of_again .done)⟩
    exact ⟨rfl, rfl, visited, normal⟩

theorem Beside.found {included : IncludedFile} (agree : Agree answers spare walker other)
    (h : Found walker walk state included after later) (beside : Beside answers walk twin)
    (state' : τ) :
    ∃ twin' later', Beside answers after twin' ∧
      next? other twin state' = (some (included, twin'), later') := by
  have normal := (pendingOnly_invariant agree.findsNormal).found h beside.normal
  obtain ⟨recursive', visited', stack'⟩ := twin
  obtain ⟨rfl, rfl, visited, pending⟩ := beside
  cases h with
  | @loaded recursive _ _ _ _ path _ _ _ _ _ _ new load =>
    have first := (pendingOnly_cons.1 pending).1 path List.mem_cons_self
    have opens := Answers.opens_of_load (agree.load load)
    obtain ⟨later', load'⟩ := agree.load_spared (agree.load load) state'
    have new' := (visited path opens first).trans new
    rw [List.map_cons, Frame.prune, List.filter_cons_of_pos opens] at *
    refine ⟨_, later', ?_, next?_of_found (round_of_found (.loaded new' load'))⟩
    refine ⟨rfl, ?_, fun other opens' normal' => ?_, normal⟩
    · cases recursive <;> rfl
    · have same := visited other opens' normal'
      exact congrArg (other.normalize.same path.normalize || ·) same

theorem Beside.ended (h : round walker walk state = .ended) (beside : Beside answers walk twin)
    (state' : τ) : next? other twin state' = (none, state') := by
  obtain ⟨recursive', visited', stack'⟩ := twin
  have empty := beside.stack
  rw [stack_of_round h] at empty
  obtain rfl : stack' = [] := empty
  exact next?_of_ended rfl

theorem Beside.next? (agree : Agree answers spare walker other) (beside : Beside answers walk twin)
    (state : σ) (state' : τ) :
    match Walk.next? walker walk state with
    | (none, _) => (Walk.next? other twin state').1 = none
    | (some (included, after), _) => ∃ twin' later', Beside answers after twin' ∧
        Walk.next? other twin state' = (some (included, twin'), later') := by
  fun_induction Walk.next? walker walk state generalizing twin state' with
  | case1 walk state step => rw [beside.ended step]
  | case2 walk state after later step ih =>
    obtain ⟨twin', later', beside', same⟩ := beside.again agree (again_of_round step) state'
    rw [same]
    exact ih beside' later'
  | case3 walk state included after later step =>
    exact beside.found agree (found_of_round step) state'

theorem Beside.gather_eq {α : Type} (agree : Agree answers spare walker other)
    (items : IncludedFile → List α) (fuel : Nat) (count : Option Nat)
    (beside : Beside answers walk twin) (state : σ) (state' : τ) :
    (gather other items fuel count twin state').1 =
      (gather walker items fuel count walk state).1 := by
  induction fuel generalizing count walk twin state state' with
  | zero => rw [gather_zero, gather_zero]
  | succ fuel ih =>
    by_cases more : count = some 0
    · rw [more]
      rfl
    · have pulled := beside.next? agree state state'
      rw [gather_more items fuel more, gather_more items fuel more]
      generalize Walk.next? walker walk state = here at pulled ⊢
      obtain ⟨_ | ⟨included, after⟩, later⟩ := here
      · generalize Walk.next? other twin state' = there at pulled ⊢
        obtain ⟨_ | _, later'⟩ := there
        · rfl
        · cases pulled
      · obtain ⟨twin', later', beside', there⟩ := pulled
        rw [there]
        exact congrArg (wantedOf count (items included) ++ ·) (ih _ beside' later later')

end Walk

/-- **Failures only mean fewer files.** A walk over a source that answers with faults, whatever they
are, gives the files that it gives over the same answers without them, where the searches that fail
find nothing and the paths that cannot be loaded are not found. None of the files left is found
through another directive, at another depth or in another order. -/
theorem failures_mean_fewer_files {σ τ : Type} (source : Source σ) (spared : Source τ)
    (answers : Answers) (spare : Path → Document) (normal : answers.FindsNormal)
    (gives : source.Gives answers) (gives' : spared.Gives (answers.flawless spare))
    (excludes : List String) (limit : Nat) (root : TargetFile) (state : σ) (state' : τ) :
    let walker : Walker σ := ⟨source, excludes, limit⟩
    let other : Walker τ := ⟨spared, excludes, limit⟩
    (∀ recursive visited count,
      (other.includedFiles root recursive visited count state').1 =
        (walker.includedFiles root recursive visited count state).1) ∧
    (∀ edges wanted count,
      (other.targetsThrough root edges wanted count state').1 =
        (walker.targetsThrough root edges wanted count state).1) ∧
    (other.allTargets root state').1 = (walker.allTargets root state).1 := by
  intro walker other
  have agree : Walk.Agree answers spare walker other := ⟨gives, gives', rfl, normal⟩
  have through : ∀ edges wanted count,
      (other.targetsThrough root edges wanted count state').1 =
        (walker.targetsThrough root edges wanted count state).1 := fun edges wanted count =>
    (Walk.beside_start answers root edges true []).gather_eq agree _ limit count state state'
  refine ⟨fun recursive visited count => ?_, through, ?_⟩
  · exact (Walk.beside_start answers root root.edges recursive visited).gather_eq agree _ limit
      count state state'
  · exact congrArg ((root.targets.map Occurrence.direct).filter (fun _ => true) ++
      ·.map Occurrence.included) (through root.edges (fun _ => true) none)

/-- A file that includes what fails before what does not. -/
def brokenFile (path : Path) : TargetFile :=
  ⟨⟨path, "include x\ninclude b\ninclude " ++ (if path = ⟨"a"⟩ then "c" else "a") ++ "\n"⟩, .make⟩

/-- Answers of which one search and one load fail, with faults that do not go away by themselves. -/
def broken : Answers where
  find _ patterns _ :=
    if patterns = ["x"] then .error (.config (.stated "no search"))
    else .ok (([⟨"a"⟩, ⟨"b"⟩, ⟨"c"⟩] : List Path).filter fun path => path.text ∈ patterns)
  load path :=
    if path = ⟨"b"⟩ then .error (.unknownRunner "none") else .ok (brokenFile path).document

theorem broken_walk_goes_on :
    broken.FindsNormal ∧
      let walker : Walker Unit := ⟨broken.source, [], 9⟩
      let other : Walker Unit := ⟨(broken.flawless fun path => ⟨path, ""⟩).source, [], 9⟩
      let root := brokenFile ⟨"Makefile"⟩
      let files : List IncludedFile := [⟨brokenFile ⟨"a"⟩, ⟨root.document, 20⟩, 1⟩,
        ⟨brokenFile ⟨"c"⟩, ⟨(brokenFile ⟨"a"⟩).document, 20⟩, 2⟩]
      (walker.includedFiles root true [] none ()).1 = files ∧
        (other.includedFiles root true [] none ()).1 = files := by
  have known : ∀ path ∈ ([⟨"a"⟩, ⟨"b"⟩, ⟨"c"⟩] : List Path), path.normalize = path := by decide
  have normal : broken.FindsNormal := by
    intro base patterns excludes paths find path mem
    unfold broken at find
    dsimp only at find
    split at find
    · cases find
    · cases find
      exact known path (List.mem_filter.1 mem).1
  have same := (failures_mean_fewer_files broken.source
    (broken.flawless fun path => ⟨path, ""⟩).source broken _ normal
    ⟨fun _ _ _ _ => rfl, fun _ _ => rfl⟩ ⟨fun _ _ _ _ => rfl, fun _ _ => rfl⟩ [] 9
    (brokenFile ⟨"Makefile"⟩) () ()).1 true [] none
  refine ⟨normal, ?_⟩
  intro walker other root files
  have within : Walk.filesWithin? walker 20 (.start root root.edges true []) () = some files := by
    decide +kernel
  obtain ⟨final, ends⟩ := Walk.ends_of_filesWithin? within
  exact ⟨ends.pulled_eq 9, same.trans (ends.pulled_eq 9)⟩

end BuildTargets
