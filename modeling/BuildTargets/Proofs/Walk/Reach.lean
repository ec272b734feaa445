import BuildTargets.Proofs.Walk.Visited

/-!
# What a recursive walk reaches

Over a source whose answers never change, a recursive walk gives exactly the files at the paths
that are reached by a chain of directives through files that can be entered, each of them once.

For one half of this, everything that a walk `Offers` (has pending, or will find for a directive
that is left) is reached. For the other half, a path on offer stays on offer until it is entered.
-/

namespace BuildTargets

/-! ## Unchanging answers -/

/-- Answers to searches and loads, the same whenever they are asked for. -/
structure Answers where
  find : Path → List String → List String → Except Fault (List Path)
  load : Path → Except Fault Document

/-- A file leads, through one of some directives, to the paths that a search for it finds. -/
def Answers.LeadsTo (answers : Answers) (excludes : List String) (file : TargetFile)
    (edges : List IncludeEdge) (path : Path) : Prop :=
  ∃ edge ∈ edges, ∃ paths,
    answers.find file.directory [edge.argument] excludes = .ok paths ∧ path ∈ paths

theorem Answers.leadsTo_cons {answers : Answers} {excludes : List String} {file : TargetFile}
    {edge : IncludeEdge} {edges : List IncludeEdge} {path : Path} :
    answers.LeadsTo excludes file (edge :: edges) path ↔
      (∃ paths, answers.find file.directory [edge.argument] excludes = .ok paths ∧ path ∈ paths) ∨
        answers.LeadsTo excludes file edges path := by
  simp [LeadsTo]

/-- The source always gives the same answers: searches find paths in normal form, out of finitely
many, and the documents loaded for these carry the path asked for. -/
structure Source.Steady {σ : Type} (source : Source σ) (answers : Answers) (known : List Path) :
    Prop where
  find_eq : ∀ base patterns excludes state,
    (source.find base patterns excludes state).1 = answers.find base patterns excludes
  load_eq : ∀ path state, (source.load path state).1 = answers.load path
  mem_known : ∀ base patterns excludes paths, answers.find base patterns excludes = .ok paths →
    ∀ path ∈ paths, path ∈ known
  normal : ∀ path ∈ known, path.normalize = path
  path_eq : ∀ path ∈ known, ∀ document, answers.load path = .ok document → document.path = path

theorem Source.Steady.find_of {σ : Type} {source : Source σ} {answers : Answers} {known : List Path}
    (steady : source.Steady answers known) {base : Path} {patterns excludes : List String}
    {state later : σ} {answer : Except Fault (List Path)}
    (h : source.find base patterns excludes state = (answer, later)) :
    answers.find base patterns excludes = answer := by
  rw [← steady.find_eq base patterns excludes state, h]

theorem Source.Steady.load_of {σ : Type} {source : Source σ} {answers : Answers} {known : List Path}
    (steady : source.Steady answers known) {path : Path} {state later : σ}
    {answer : Except Fault Document} (h : source.load path state = (answer, later)) :
    answers.load path = answer := by
  rw [← steady.load_eq path state, h]

/-- A walk from `root` enters the path and reads `document` there: the path is not the root's, it
did not count as entered before, and it can be loaded. -/
structure Answers.Enters (answers : Answers) (root : TargetFile) (visited : List Path) (path : Path)
    (document : Document) : Prop where
  not_root : path.same root.path.normalize = false
  outside : ∀ v ∈ visited, path.same v = false
  load : answers.load path = .ok document

/-- The paths that some directives of a root file lead to, and those that the files entered at
paths reached lead to in turn. -/
inductive Answers.Reaches (answers : Answers) (excludes : List String) (root : TargetFile)
    (edges : List IncludeEdge) (visited : List Path) : Path → Prop where
  | first {path : Path} (leads : answers.LeadsTo excludes root edges path) :
      Reaches answers excludes root edges visited path
  | next {via path : Path} {document : Document}
      (reaches : Reaches answers excludes root edges visited via)
      (enters : answers.Enters root visited via document)
      (leads : answers.LeadsTo excludes ⟨document, root.grammar⟩
        (TargetFile.edges ⟨document, root.grammar⟩) path) :
      Reaches answers excludes root edges visited path

/-- A file under way has the path pending, or leads to it through a directive that is left. -/
def Frame.Offers (answers : Answers) (excludes : List String) (frame : Frame) (path : Path) :
    Prop :=
  path ∈ frame.pending ∨ answers.LeadsTo excludes frame.file frame.edges path

namespace Walk

variable {σ : Type} {walker : Walker σ} {answers : Answers} {known : List Path}

/-! ## Paths on offer -/

/-- One of the files under way offers the path. -/
def Offers (answers : Answers) (excludes : List String) (walk : Walk) (path : Path) : Prop :=
  ∃ frame ∈ walk.stack, frame.Offers answers excludes path

theorem offers_cons {excludes : List String} {recursive : Bool} {visited : List Path}
    {frame : Frame} {below : List Frame} {path : Path} :
    Offers answers excludes ⟨recursive, visited, frame :: below⟩ path ↔
      path ∈ frame.pending ∨ answers.LeadsTo excludes frame.file frame.edges path ∨
        Offers answers excludes ⟨recursive, visited, below⟩ path := by
  simp [Offers, Frame.Offers, or_assoc]

theorem hasVisited_self (recursive : Bool) (visited : List Path) (stack : List Frame)
    (path : Path) : hasVisited ⟨recursive, path.normalize :: visited, stack⟩ path = true := by
  rw [hasVisited, List.any_cons, Path.same_iff.2 rfl, Bool.true_or]

/-- **What a round without a file does to the files under way**: the innermost one is done with when
it offers nothing; otherwise it goes on, offers nothing new, and keeps what it offers but for a path
that was visited. -/
theorem Again.frames (steady : walker.source.Steady answers known) {walk after : Walk}
    {state later : σ} (h : Again walker walk state after later) :
    ∃ top below, walk.stack = top :: below ∧
      (after.stack = below ∧ (∀ path, ¬ top.Offers answers walker.excludes path) ∨
        ∃ next, after.stack = next :: below ∧ next.file = top.file ∧
          (∀ path, next.Offers answers walker.excludes path →
            top.Offers answers walker.excludes path) ∧
          ∀ path, top.Offers answers walker.excludes path →
            next.Offers answers walker.excludes path ∨ after.hasVisited path = true) := by
  cases h with
  | visited old =>
    refine ⟨_, _, rfl, .inr ⟨_, rfl, rfl, fun _ => .imp_left (List.mem_cons_of_mem _), ?_⟩⟩
    rintro other (mem | leads)
    · rcases List.mem_cons.1 mem with rfl | mem
      · exact .inr old
      · exact .inl (.inl mem)
    · exact .inl (.inr leads)
  | notLoaded =>
    refine ⟨_, _, rfl, .inr ⟨_, rfl, rfl, fun _ => .imp_left (List.mem_cons_of_mem _), ?_⟩⟩
    rintro other (mem | leads)
    · rcases List.mem_cons.1 mem with rfl | mem
      · exact .inr (hasVisited_self _ _ _ _)
      · exact .inl (.inl mem)
    · exact .inl (.inr leads)
  | searched find =>
    refine ⟨_, _, rfl, .inr ⟨_, rfl, rfl, ?_, ?_⟩⟩
    · rintro other (mem | leads)
      · exact .inr (Answers.leadsTo_cons.2 (.inl ⟨_, steady.find_of find, mem⟩))
      · exact .inr (Answers.leadsTo_cons.2 (.inr leads))
    · rintro other (mem | leads)
      · cases mem
      · rcases Answers.leadsTo_cons.1 leads with ⟨paths, found, mem⟩ | leads
        · cases found.symm.trans (steady.find_of find)
          exact .inl (.inl mem)
        · exact .inl (.inr leads)
  | notSearched find =>
    refine ⟨_, _, rfl, .inr ⟨_, rfl, rfl, ?_, ?_⟩⟩
    · rintro other (mem | leads)
      · cases mem
      · exact .inr (Answers.leadsTo_cons.2 (.inr leads))
    · rintro other (mem | leads)
      · cases mem
      · rcases Answers.leadsTo_cons.1 leads with ⟨paths, found, mem⟩ | leads
        · cases found.symm.trans (steady.find_of find)
        · exact .inl (.inr leads)
  | done =>
    refine ⟨_, _, rfl, .inl ⟨rfl, ?_⟩⟩
    rintro other (mem | ⟨edge, mem, -⟩) <;> cases mem

theorem Again.offers (steady : walker.source.Steady answers known) {walk after : Walk}
    {state later : σ} (h : Again walker walk state after later) {path : Path}
    (offers : after.Offers answers walker.excludes path) :
    walk.Offers answers walker.excludes path := by
  obtain ⟨frame, mem, offers⟩ := offers
  obtain ⟨top, below, stack, ⟨same, -⟩ | ⟨next, same, -, old, -⟩⟩ := h.frames steady
  · rw [same] at mem
    exact ⟨frame, stack ▸ List.mem_cons_of_mem top mem, offers⟩
  · rw [same] at mem
    rcases List.mem_cons.1 mem with rfl | mem
    · exact ⟨top, stack ▸ List.mem_cons_self, old path offers⟩
    · exact ⟨frame, stack ▸ List.mem_cons_of_mem top mem, offers⟩

theorem Found.offers {walk after : Walk} {state later : σ} {included : IncludedFile}
    (h : Found walker walk state included after later) {path : Path}
    (offers : after.Offers answers walker.excludes path) :
    walk.Offers answers walker.excludes path ∨
      answers.LeadsTo walker.excludes included.file included.file.edges path := by
  cases h with
  | @loaded recursive =>
    cases recursive with
    | false =>
      rw [if_neg Bool.false_ne_true, offers_cons] at offers
      exact .inl (offers_cons.2 (offers.imp_left (List.mem_cons_of_mem _)))
    | true =>
      rw [if_pos rfl, offers_cons, offers_cons] at offers
      rcases offers with mem | leads | offers
      · cases mem
      · exact .inr leads
      · exact .inl (offers_cons.2 (offers.imp_left (List.mem_cons_of_mem _)))

/-! ## Paths that await their turn -/

/-- The path is on offer and not visited. -/
def Awaits (answers : Answers) (excludes : List String) (walk : Walk) (path : Path) : Prop :=
  walk.hasVisited path = false ∧ walk.Offers answers excludes path

theorem hasVisited_cons (recursive : Bool) (visited : List Path) (stack frames : List Frame)
    (path other : Path) :
    hasVisited ⟨recursive, other :: visited, stack⟩ path =
      (path.normalize.same other || hasVisited ⟨recursive, visited, frames⟩ path) := by
  rw [hasVisited, List.any_cons]
  rfl

/-- Different known paths have different normal forms. -/
theorem same_normalize_of_ne (steady : walker.source.Steady answers known) {a b : Path}
    (ha : a ∈ known) (hb : b ∈ known) (ne : a ≠ b) : a.normalize.same b.normalize = false := by
  rw [Bool.eq_false_iff]
  intro same
  have := Path.normalize_congr same
  rw [steady.normal a ha, steady.normal a ha, steady.normal b hb, steady.normal b hb] at this
  exact ne this

theorem Again.unvisited (steady : walker.source.Steady answers known) {walk after : Walk}
    {state later : σ} (h : Again walker walk state after later)
    (only : walk.PendingOnly (· ∈ known)) {path : Path} {document : Document} (mem : path ∈ known)
    (load : answers.load path = .ok document) (new : walk.hasVisited path = false) :
    after.hasVisited path = false := by
  cases h with
  | @notLoaded _ _ _ _ _ other _ _ _ _ _ _ _ failed =>
    have ne : path ≠ other := by
      rintro rfl
      cases load.symm.trans (steady.load_of failed)
    rw [hasVisited_cons, same_normalize_of_ne steady mem
      ((pendingOnly_cons.1 only).1 _ List.mem_cons_self) ne]
    exact new
  | _ => exact new

theorem Again.awaits (steady : walker.source.Steady answers known) {walk after : Walk}
    {state later : σ} (h : Again walker walk state after later)
    (only : walk.PendingOnly (· ∈ known)) {path : Path} {document : Document} (mem : path ∈ known)
    (load : answers.load path = .ok document) (awaits : walk.Awaits answers walker.excludes path) :
    after.Awaits answers walker.excludes path := by
  have new := h.unvisited steady only mem load awaits.1
  refine ⟨new, ?_⟩
  obtain ⟨frame, held, offers⟩ := awaits.2
  obtain ⟨top, below, stack, step⟩ := h.frames steady
  rw [stack] at held
  rcases step with ⟨same, empty⟩ | ⟨next, same, -, -, keeps⟩
  · rcases List.mem_cons.1 held with rfl | held
    · exact absurd offers (empty path)
    · exact ⟨frame, same ▸ held, offers⟩
  · rcases List.mem_cons.1 held with rfl | held
    · rcases keeps path offers with offers | old
      · exact ⟨next, same ▸ List.mem_cons_self, offers⟩
      · cases new.symm.trans old
    · exact ⟨frame, same ▸ List.mem_cons_of_mem next held, offers⟩

/-- A round with a file leaves a path unvisited unless it is the path of the file. -/
theorem Found.unvisited (steady : walker.source.Steady answers known) {walk after : Walk}
    {state later : σ} {included : IncludedFile} (h : Found walker walk state included after later)
    (only : walk.PendingOnly (· ∈ known)) {path : Path} (mem : path ∈ known)
    (new : walk.hasVisited path = false) :
    included.file.path = path ∨ after.hasVisited path = false := by
  cases h with
  | @loaded _ _ _ _ _ other _ _ _ _ _ _ _ load =>
    have known := (pendingOnly_cons.1 only).1 other List.mem_cons_self
    by_cases eq : path = other
    · left
      rw [eq]
      exact steady.path_eq other known _ (steady.load_of load)
    · right
      rw [hasVisited_cons, same_normalize_of_ne steady mem known eq]
      exact new

theorem Found.awaits (steady : walker.source.Steady answers known) {walk after : Walk}
    {state later : σ} {included : IncludedFile} (h : Found walker walk state included after later)
    (only : walk.PendingOnly (· ∈ known)) {path : Path} (mem : path ∈ known)
    (awaits : walk.Awaits answers walker.excludes path) :
    included.file.path = path ∨ after.Awaits answers walker.excludes path := by
  obtain ⟨new, offers⟩ := awaits
  have unvisited := h.unvisited steady only mem new
  cases h with
  | @loaded recursive visited _ _ _ _ _ _ _ _ _ _ _ load =>
    rw [offers_cons, List.mem_cons, or_assoc] at offers
    rcases offers with rfl | offers
    · exact .inl (steady.path_eq path mem _ (steady.load_of load))
    · refine unvisited.imp_right fun new => ⟨new, ?_⟩
      cases recursive with
      | false => exact offers_cons.2 offers
      | true => exact offers_cons.2 (.inr (.inr (offers_cons.2 offers)))

theorem Found.expands {walk after : Walk} {state later : σ} {included : IncludedFile}
    (h : Found walker walk state included after later) (recursive : walk.recursive = true)
    {path : Path} (leads : answers.LeadsTo walker.excludes included.file included.file.edges path) :
    after.Offers answers walker.excludes path := by
  cases h with
  | loaded =>
    obtain rfl := recursive
    exact offers_cons.2 (.inr (.inl leads))

/-! ## Everything reached is given -/

theorem recursive_invariant (walker : Walker σ) :
    Invariant walker fun walk _ => walk.recursive = true where
  again h recursive := by cases h <;> exact recursive
  found h recursive := by cases h; exact recursive

theorem known_invariant (steady : walker.source.Steady answers known) :
    Invariant walker fun walk _ => walk.PendingOnly (· ∈ known) :=
  pendingOnly_invariant fun _ _ _ _ _ _ find => steady.mem_known _ _ _ _ (steady.find_of find)

/-- A path that awaits its turn and can be loaded gets it before the walk ends. -/
theorem Ends.gives_awaited (steady : walker.source.Steady answers known) {walk : Walk}
    {state final : σ} {files : List IncludedFile} (h : Ends walker walk state files final)
    (only : walk.PendingOnly (· ∈ known)) {path : Path} {document : Document} (mem : path ∈ known)
    (load : answers.load path = .ok document) (awaits : walk.Awaits answers walker.excludes path) :
    ∃ included ∈ files, included.file.path = path := by
  induction h with
  | ended step =>
    obtain ⟨_, frame, mem, _⟩ := awaits
    rw [stack_of_round step] at mem
    cases mem
  | again step _ ih =>
    have step := again_of_round step
    exact ih ((known_invariant steady).again step only) (step.awaits steady only mem load awaits)
  | found step _ ih =>
    have step := found_of_round step
    rcases step.awaits steady only mem awaits with eq | awaits
    · exact ⟨_, List.mem_cons_self, eq⟩
    · obtain ⟨included, mem, eq⟩ := ih ((known_invariant steady).found step only) awaits
      exact ⟨included, List.mem_cons_of_mem _ mem, eq⟩

/-- What a given file leads to is given as well, if it can be loaded and was not visited before. -/
theorem Ends.gives_led (steady : walker.source.Steady answers known) {walk : Walk}
    {state final : σ} {files : List IncludedFile} (h : Ends walker walk state files final)
    (recursive : walk.recursive = true) (only : walk.PendingOnly (· ∈ known)) {path : Path}
    {document : Document} (mem : path ∈ known) (load : answers.load path = .ok document)
    (new : walk.hasVisited path = false) {via : IncludedFile} (given : via ∈ files)
    (leads : answers.LeadsTo walker.excludes via.file via.file.edges path) :
    ∃ included ∈ files, included.file.path = path := by
  induction h with
  | ended => cases given
  | again step _ ih =>
    have step := again_of_round step
    exact ih ((recursive_invariant walker).again step recursive)
      ((known_invariant steady).again step only) (step.unvisited steady only mem load new) given
  | @found _ _ _ _ _ _ files step rest ih =>
    have step := found_of_round step
    have only' := (known_invariant steady).found step only
    rcases step.unvisited steady only mem new with eq | new
    · exact ⟨_, List.mem_cons_self, eq⟩
    · have later : ∃ included ∈ files, included.file.path = path := by
        rcases List.mem_cons.1 given with rfl | given
        · exact rest.gives_awaited steady only' mem load ⟨new, step.expands recursive leads⟩
        · exact ih ((recursive_invariant walker).found step recursive) only' new given
      obtain ⟨included, mem, eq⟩ := later
      exact ⟨included, List.mem_cons_of_mem _ mem, eq⟩

/-! ## Everything given is reached -/

/-- A walk from `root` has only reached paths on offer, reads all files with the grammar of the
root, and counts what counted as entered from the start as visited. -/
structure Traces (answers : Answers) (excludes : List String) (root : TargetFile)
    (edges : List IncludeEdge) (visited : List Path) (walk : Walk) : Prop where
  entered : ∀ v ∈ root.path.normalize :: visited, v ∈ walk.visited
  grammar : ∀ frame ∈ walk.stack, frame.file.grammar = root.grammar
  reaches : ∀ path, walk.Offers answers excludes path →
    answers.Reaches excludes root edges visited path

theorem Traces.again (steady : walker.source.Steady answers known) {root : TargetFile}
    {edges : List IncludeEdge} {visited : List Path} {walk after : Walk} {state later : σ}
    (traces : walk.Traces answers walker.excludes root edges visited)
    (h : Again walker walk state after later) :
    after.Traces answers walker.excludes root edges visited where
  entered := by
    cases h with
    | notLoaded => exact fun v mem => List.mem_cons_of_mem _ (traces.entered v mem)
    | _ => exact traces.entered
  grammar := by
    have same := traces.grammar
    cases h with
    | done => exact (List.forall_mem_cons.1 same).2
    | _ => exact List.forall_mem_cons.2 (List.forall_mem_cons.1 same)
  reaches path offers := traces.reaches path (h.offers steady offers)

/-- What a round with a file finds out about it. -/
structure Arrives (answers : Answers) (excludes : List String) (root : TargetFile)
    (edges : List IncludeEdge) (visited : List Path) (file : TargetFile) : Prop where
  grammar : file.grammar = root.grammar
  reaches : answers.Reaches excludes root edges visited file.path
  enters : answers.Enters root visited file.path file.document

theorem Arrives.eq_of_path {excludes : List String} {root : TargetFile}
    {edges edges' : List IncludeEdge} {visited : List Path} {file file' : TargetFile}
    (h : Arrives answers excludes root edges visited file)
    (h' : Arrives answers excludes root edges' visited file') (path : file.path = file'.path) :
    file = file' := by
  obtain ⟨document, grammar⟩ := file
  obtain ⟨document', grammar'⟩ := file'
  have load := h.enters.load
  rw [path] at load
  have read : document' = document := Except.ok.inj (h'.enters.load.symm.trans load)
  have same : grammar = grammar' := h.grammar.trans h'.grammar.symm
  rw [read, same]

theorem Found.arrives (steady : walker.source.Steady answers known) {root : TargetFile}
    {edges : List IncludeEdge} {visited : List Path} {walk after : Walk} {state later : σ}
    {included : IncludedFile} (h : Found walker walk state included after later)
    (only : walk.PendingOnly (· ∈ known))
    (traces : walk.Traces answers walker.excludes root edges visited) :
    Arrives answers walker.excludes root edges visited included.file := by
  cases h with
  | @loaded _ _ _ _ _ path _ _ _ _ document _ new load =>
    have mem := (pendingOnly_cons.1 only).1 path List.mem_cons_self
    have load := steady.load_of load
    obtain rfl : document.path = path := steady.path_eq path mem document load
    simp only [hasVisited, steady.normal _ mem, List.any_eq_false, Bool.not_eq_true] at new
    have entered := traces.entered
    rw [List.forall_mem_cons] at entered
    exact {
      grammar := traces.grammar _ List.mem_cons_self
      reaches := traces.reaches _ (offers_cons.2 (.inl List.mem_cons_self))
      enters := ⟨new _ entered.1, fun v mem => new v (entered.2 v mem), load⟩ }

theorem Traces.found (steady : walker.source.Steady answers known) {root : TargetFile}
    {edges : List IncludeEdge} {visited : List Path} {walk after : Walk} {state later : σ}
    {included : IncludedFile} (traces : walk.Traces answers walker.excludes root edges visited)
    (h : Found walker walk state included after later) (only : walk.PendingOnly (· ∈ known)) :
    after.Traces answers walker.excludes root edges visited where
  entered := by
    cases h
    exact fun v mem => List.mem_cons_of_mem _ (traces.entered v mem)
  grammar := by
    have inner := (h.arrives steady only traces).grammar
    have same := traces.grammar
    cases h with
    | @loaded recursive =>
      have frames := List.forall_mem_cons.1 same
      cases recursive with
      | false => exact List.forall_mem_cons.2 frames
      | true => exact List.forall_mem_cons.2 ⟨inner, List.forall_mem_cons.2 frames⟩
  reaches path offers := by
    rcases h.offers offers with offers | leads
    · exact traces.reaches path offers
    · have arrives := h.arrives steady only traces
      have leads : answers.LeadsTo walker.excludes ⟨included.file.document, root.grammar⟩
          (TargetFile.edges ⟨included.file.document, root.grammar⟩) path := by
        rw [← arrives.grammar]; exact leads
      exact .next arrives.reaches arrives.enters leads

theorem Ends.arrives (steady : walker.source.Steady answers known) {root : TargetFile}
    {edges : List IncludeEdge} {visited : List Path} {walk : Walk} {state final : σ}
    {files : List IncludedFile} (h : Ends walker walk state files final)
    (only : walk.PendingOnly (· ∈ known))
    (traces : walk.Traces answers walker.excludes root edges visited) :
    ∀ included ∈ files, Arrives answers walker.excludes root edges visited included.file := by
  induction h with
  | ended => exact fun _ mem => absurd mem List.not_mem_nil
  | again step _ ih =>
    have step := again_of_round step
    exact ih ((known_invariant steady).again step only) (traces.again steady step)
  | found step _ ih =>
    have step := found_of_round step
    exact List.forall_mem_cons.2 ⟨step.arrives steady only traces,
      ih ((known_invariant steady).found step only) (traces.found steady step only)⟩

/-! ## Nothing is given twice -/

theorem Found.visits (steady : walker.source.Steady answers known) {walk after : Walk}
    {state later : σ} {included : IncludedFile} (h : Found walker walk state included after later)
    (only : walk.PendingOnly (· ∈ known)) :
    walk.hasVisited included.file.path = false ∧
      after.visited = included.file.path.normalize :: walk.visited := by
  cases h with
  | @loaded _ _ _ _ _ path _ _ _ _ document _ new load =>
    have mem := (pendingOnly_cons.1 only).1 path List.mem_cons_self
    obtain rfl : document.path = path := steady.path_eq path mem document (steady.load_of load)
    exact ⟨new, rfl⟩

/-- No file of a walk is visited when the walk begins, and none has the path of an earlier one. -/
theorem Ends.distinct (steady : walker.source.Steady answers known) {walk : Walk} {state final : σ}
    {files : List IncludedFile} (h : Ends walker walk state files final)
    (only : walk.PendingOnly (· ∈ known)) :
    (∀ included ∈ files, walk.hasVisited included.file.path = false) ∧
      files.Pairwise fun a b => a.file.path.same b.file.path = false := by
  induction h with
  | ended => exact ⟨fun _ mem => absurd mem List.not_mem_nil, .nil⟩
  | again step _ ih =>
    have step := again_of_round step
    obtain ⟨new, distinct⟩ := ih ((known_invariant steady).again step only)
    refine ⟨fun included mem => ?_, distinct⟩
    have new := new included mem
    cases step with
    | notLoaded =>
      rw [hasVisited, List.any_cons, Bool.or_eq_false_iff] at new
      exact new.2
    | _ => exact new
  | @found _ _ _ _ _ included _ step _ ih =>
    have step := found_of_round step
    obtain ⟨new, distinct⟩ := ih ((known_invariant steady).found step only)
    obtain ⟨first, visited⟩ := step.visits steady only
    simp only [hasVisited, visited, List.any_cons, Bool.or_eq_false_iff] at new
    refine ⟨List.forall_mem_cons.2 ⟨first, fun other mem => (new other mem).2⟩,
      .cons (fun other mem => ?_) distinct⟩
    rw [Bool.eq_false_iff]
    intro same
    have differ := (new other mem).1
    rw [Path.normalize_congr same, Path.same_iff.2 rfl] at differ
    cases differ

end Walk

/-! ## The files of a recursive walk -/

theorem Answers.Enters.anti {answers : Answers} {root : TargetFile} {visited more : List Path}
    (sub : visited ⊆ more) {path : Path} {document : Document}
    (h : answers.Enters root more path document) : answers.Enters root visited path document :=
  ⟨h.not_root, fun v mem => h.outside v (sub mem), h.load⟩

theorem Answers.Reaches.anti {answers : Answers} {excludes : List String} {root : TargetFile}
    {edges : List IncludeEdge} {visited more : List Path} (sub : visited ⊆ more)
    {path : Path} (h : answers.Reaches excludes root edges more path) :
    answers.Reaches excludes root edges visited path := by
  induction h with
  | first leads => exact .first leads
  | next _ enters leads ih => exact .next ih (enters.anti sub) leads

section

variable {σ : Type} {walker : Walker σ} {answers : Answers} {known : List Path}
  {root : TargetFile} {edges : List IncludeEdge} {visited : List Path}

theorem Answers.LeadsTo.mem_known (steady : walker.source.Steady answers known)
    {excludes : List String} {file : TargetFile} {path : Path}
    (h : answers.LeadsTo excludes file edges path) : path ∈ known := by
  obtain ⟨edge, _, paths, find, mem⟩ := h
  exact steady.mem_known _ _ _ _ find path mem

theorem Answers.Reaches.mem_known (steady : walker.source.Steady answers known)
    {excludes : List String} {path : Path}
    (h : answers.Reaches excludes root edges visited path) : path ∈ known := by
  cases h with
  | first leads => exact leads.mem_known steady
  | next _ _ leads => exact leads.mem_known steady

namespace Walk

theorem offers_start {excludes : List String} {recursive : Bool} {path : Path} :
    (start root edges recursive visited).Offers answers excludes path ↔
      answers.LeadsTo excludes root edges path := by
  simp [start, Offers, Frame.Offers]

theorem traces_start {excludes : List String} {recursive : Bool} :
    (start root edges recursive visited).Traces answers excludes root edges visited :=
  ⟨fun _ mem => mem, by simp [start], fun _ offers => .first (offers_start.1 offers)⟩

theorem pendingOnly_start {P : Path → Prop} {recursive : Bool} :
    (start root edges recursive visited).PendingOnly P := by
  simp [PendingOnly, start]

theorem hasVisited_start {path : Path} {document : Document} (normal : path.normalize = path)
    (enters : answers.Enters root visited path document) :
    (start root edges true visited).hasVisited path = false := by
  simp only [hasVisited, start, normal, List.any_cons, enters.not_root, Bool.false_or,
    List.any_eq_false, Bool.not_eq_true]
  exact enters.outside

/-- A reached path that can be entered is the path of a file of the walk: by induction along the
chain of directives that leads to it. -/
theorem Ends.gives_reached (steady : walker.source.Steady answers known) {state final : σ}
    {files : List IncludedFile}
    (h : Ends walker (start root edges true visited) state files final) {path : Path}
    (reaches : answers.Reaches walker.excludes root edges visited path) {document : Document}
    (enters : answers.Enters root visited path document) :
    ∃ included ∈ files, included.file.path = path := by
  induction reaches generalizing document with
  | first leads =>
    have mem := leads.mem_known steady
    exact h.gives_awaited steady pendingOnly_start mem enters.load
      ⟨hasVisited_start (steady.normal _ mem) enters, offers_start.2 leads⟩
  | @next via path read _ entered leads ih =>
    have mem := leads.mem_known steady
    obtain ⟨included, given, rfl⟩ := ih entered
    have arrives := h.arrives steady pendingOnly_start traces_start included given
    obtain rfl : read = included.file.document :=
      Except.ok.inj (entered.load.symm.trans arrives.enters.load)
    rw [← arrives.grammar] at leads
    exact h.gives_led steady rfl pendingOnly_start mem enters.load
      (hasVisited_start (steady.normal _ mem) enters) given leads

/-- The paths of a recursive walk are those reached that can be entered. -/
theorem Ends.mem_paths_iff (steady : walker.source.Steady answers known) {state final : σ}
    {files : List IncludedFile}
    (h : Ends walker (start root edges true visited) state files final) (path : Path) :
    path ∈ files.map (fun included => included.file.path) ↔
      answers.Reaches walker.excludes root edges visited path ∧
        ∃ document, answers.Enters root visited path document := by
  rw [List.mem_map]
  constructor
  · rintro ⟨included, mem, rfl⟩
    have arrives := h.arrives steady pendingOnly_start traces_start included mem
    exact ⟨arrives.reaches, _, arrives.enters⟩
  · rintro ⟨reaches, document, enters⟩
    exact h.gives_reached steady reaches enters

end Walk

/-- A recursive walk over unchanging answers ends. -/
theorem Source.Steady.exists_ends (steady : walker.source.Steady answers known) (root : TargetFile)
    (edges : List IncludeEdge) (state : σ) :
    ∃ files final, Walk.Ends walker (Walk.start root edges true []) state files final ∧
      files.length ≤ known.length := by
  have finds : Walk.FindsOnly walker (Walk.Known known) :=
    fun base patterns excludes state paths later find path held => by
      have mem := steady.mem_known _ _ _ _ (steady.find_of find) path held
      exact ⟨path, mem, Path.same_iff.2 (by rw [steady.normal path mem])⟩
  obtain ⟨files, final, ends, le⟩ :=
    Walk.ends_of_findsOnly finds (Walk.start root edges true []) state Walk.pendingOnly_start
  exact ⟨files, final, ends, Nat.le_trans le List.countP_le_length⟩

theorem Walker.targetsThrough_eq {state final : σ} {files : List IncludedFile}
    (h : Walk.Ends walker (Walk.start root edges true []) state files final)
    (le : files.length ≤ walker.limit) :
    (walker.targetsThrough root edges (fun _ => true) none state).1 =
      files.flatMap fun included => included.targets root.document := by
  rw [targetsThrough, h.gather_eq, List.take_of_length_le le]
  simp only [List.filter_eq_self.2 fun _ _ => rfl]

/-- All targets of a root file are its own and then those of the files of its recursive walk. -/
theorem Walker.allTargets_eq {state final : σ} {files : List IncludedFile}
    (h : Walk.Ends walker (Walk.start root root.edges true []) state files final)
    (le : files.length ≤ walker.limit) :
    (walker.allTargets root state).1 = root.targets.map .direct ++
      files.flatMap fun included => (included.targets root.document).map .included := by
  simp only [allTargets, occurrences, Option.map_none]
  rw [targetsThrough_eq h le, List.map_flatMap, List.filter_eq_self.2 fun _ _ => rfl]

end

/-- **A recursive walk gives exactly what is reached, once each.** Over unchanging answers it ends,
and its files are what can be pulled out of it. Their paths are those reached from the directives
that can be entered, each file is what can be read at its path, and no two paths are the same, so
that fewer are left when more count as entered before. All targets of a root file are its own and
then those of the files reached from all its directives, file by file, if the walker may enter as
many files as there are known paths. -/
theorem recursive_walk_gives_reached {σ : Type} (walker : Walker σ) (answers : Answers)
    (known : List Path) (steady : walker.source.Steady answers known) (root : TargetFile)
    (edges : List IncludeEdge) (visited : List Path) (state : σ) :
    ∃ files final, Walk.Ends walker (Walk.start root edges true visited) state files final ∧
      (∀ demand, (Walk.gather walker (fun included => [included]) demand none
        (Walk.start root edges true visited) state).1 = files.take demand) ∧
      (∀ path, path ∈ files.map (fun included => included.file.path) ↔
        answers.Reaches walker.excludes root edges visited path ∧
          ∃ document, answers.Enters root visited path document) ∧
      (∀ included ∈ files, included.file.grammar = root.grammar ∧
        answers.Enters root visited included.file.path included.file.document) ∧
      (files.map fun included => included.file.path).Pairwise (fun p q => p.same q = false) ∧
      (∀ more fewer before after, visited ⊆ more →
        Walk.Ends walker (Walk.start root edges true more) before fewer after →
          fewer.map (fun included => included.file.path) ⊆
            files.map fun included => included.file.path) ∧
      (visited = [] → edges = root.edges → known.length ≤ walker.limit →
        (walker.allTargets root state).1 = root.targets.map .direct ++
          files.flatMap fun included => (included.targets root.document).map .included) := by
  have finds : Walk.FindsOnly walker (Walk.Known known) := by
    intro base patterns excludes state paths later find path mem
    have mem := steady.mem_known _ _ _ _ (steady.find_of find) path mem
    exact ⟨path, mem, by rw [steady.normal path mem]; exact Path.same_iff.2 rfl⟩
  obtain ⟨files, final, ends, le⟩ :=
    Walk.ends_of_findsOnly finds (Walk.start root edges true visited) state Walk.pendingOnly_start
  have bound : files.length ≤ known.length := Nat.le_trans le List.countP_le_length
  refine ⟨files, final, ends, ends.pulled_eq, ends.mem_paths_iff steady, ?_, ?_, ?_, ?_⟩
  · intro included mem
    have arrives := ends.arrives steady Walk.pendingOnly_start Walk.traces_start included mem
    exact ⟨arrives.grammar, arrives.enters⟩
  · exact List.pairwise_map.2 (ends.distinct steady Walk.pendingOnly_start).2
  · intro more fewer before after sub h path mem
    obtain ⟨reaches, document, enters⟩ := (h.mem_paths_iff steady path).1 mem
    exact (ends.mem_paths_iff steady path).2 ⟨reaches.anti sub, document, enters.anti sub⟩
  · rintro rfl rfl enough
    exact Walker.allTargets_eq ends (Nat.le_trans bound enough)

def Answers.source (answers : Answers) : Source Unit where
  find base patterns excludes state := (answers.find base patterns excludes, state)
  load path state := (answers.load path, state)
  note _ state := state

/-- Two files that include each other. -/
def ring : Answers where
  find _ patterns _ := .ok (([⟨"a"⟩, ⟨"b"⟩] : List Path).filter fun path => path.text ∈ patterns)
  load path :=
    if path = ⟨"a"⟩ then .ok ⟨path, "include b\na:\n"⟩
    else if path = ⟨"b"⟩ then .ok ⟨path, "include a\nb:\n"⟩
    else .error (.documentNotFound path .missing)

def ringRoot : TargetFile := ⟨⟨⟨"Makefile"⟩, "include a\nall:\n"⟩, .make⟩

theorem ring_walk_gives_both :
    ring.source.Steady ring [⟨"a"⟩, ⟨"b"⟩] ∧
      ∃ files final,
        Walk.Ends ⟨ring.source, [], 2⟩ (Walk.start ringRoot ringRoot.edges true []) () files final ∧
          ∀ path ∈ ([⟨"a"⟩, ⟨"b"⟩] : List Path),
            path ∈ files.map fun included => included.file.path := by
  have steady : ring.source.Steady ring [⟨"a"⟩, ⟨"b"⟩] := {
    find_eq := fun _ _ _ _ => rfl
    load_eq := fun _ _ => rfl
    mem_known := by
      intro base patterns excludes paths find path mem
      cases find
      exact (List.mem_filter.1 mem).1
    normal := by decide
    path_eq := by
      intro path mem document load
      simp only [ring] at load
      split at load
      · cases load; rfl
      · split at load <;> cases load; rfl }
  obtain ⟨files, final, ends, -, given, -⟩ :=
    recursive_walk_gives_reached ⟨ring.source, [], 2⟩ ring _ steady ringRoot ringRoot.edges [] ()
  have leads : ring.Reaches [] ringRoot ringRoot.edges [] ⟨"a"⟩ :=
    .first ⟨⟨0, "a"⟩, by decide +kernel, [⟨"a"⟩], by decide +kernel, by decide⟩
  have enters : ring.Enters ringRoot [] ⟨"a"⟩ ⟨⟨"a"⟩, "include b\na:\n"⟩ :=
    ⟨by decide, by simp, rfl⟩
  refine ⟨steady, files, final, ends, ?_⟩
  intro path mem
  rw [given]
  simp only [List.mem_cons, List.not_mem_nil, or_false] at mem
  rcases mem with rfl | rfl
  · exact ⟨leads, _, enters⟩
  · refine ⟨.next leads enters ⟨⟨0, "b"⟩, by decide +kernel, [⟨"b"⟩], by decide +kernel, by decide⟩,
      ⟨⟨"b"⟩, "include a\nb:\n"⟩, by decide, by simp, rfl⟩

end BuildTargets
