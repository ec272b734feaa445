import BuildTargets.Proofs.Walk.Run

/-!
# What a walk asks and is answered

`Source.logged` keeps a log of what a source is asked, each question with its answer. (The
questions alone do not say which of the loads gave a file.) The log only grows, and nothing else
changes. The files of a walk can be read off it: a pull adds searches and loads that fail, and last
the load that the file came from.
-/

namespace BuildTargets

variable {σ : Type} {walker : Walker σ}

/-- A question to a source, with its answer. -/
inductive Reply where
  | found (base : Path) (patterns excludes : List String) (answer : Except Fault (List Path))
  | loaded (path : Path) (answer : Except Fault Document)

def Source.logged (source : Source σ) : Source (σ × List Reply) where
  find base patterns excludes := fun (state, log) =>
    let (answer, state) := source.find base patterns excludes state
    (answer, state, log ++ [.found base patterns excludes answer])
  load path := fun (state, log) =>
    let (answer, state) := source.load path state
    (answer, state, log ++ [.loaded path answer])
  note remark := fun (state, log) => (source.note remark state, log)

def Walker.logged (walker : Walker σ) : Walker (σ × List Reply) where
  source := walker.source.logged
  excludes := walker.excludes
  limit := walker.limit

variable {state later : σ × List Reply}

theorem Walker.logged_find {base : Path} {patterns excludes : List String}
    {answer : Except Fault (List Path)}
    (h : walker.logged.source.find base patterns excludes state = (answer, later)) :
    walker.source.find base patterns excludes state.1 = (answer, later.1) ∧
      later.2 = state.2 ++ [.found base patterns excludes answer] := by
  cases h
  exact ⟨rfl, rfl⟩

theorem Walker.logged_load {path : Path} {answer : Except Fault Document}
    (h : walker.logged.source.load path state = (answer, later)) :
    walker.source.load path state.1 = (answer, later.1) ∧
      later.2 = state.2 ++ [.loaded path answer] := by
  cases h
  exact ⟨rfl, rfl⟩

@[simp] theorem Walker.logged_note (remark : Remark) :
    (walker.logged.source.note remark state).2 = state.2 := rfl

/-! ## Documents in a log -/

/-- The document that a question was answered with, if it was a load that did not fail. -/
def Reply.document? : Reply → Option Document
  | .loaded _ (.ok document) => some document
  | _ => none

def documents (log : List Reply) : List Document := log.filterMap Reply.document?

@[simp] theorem documents_nil : documents [] = [] := rfl

@[simp] theorem documents_append (log more : List Reply) :
    documents (log ++ more) = documents log ++ documents more := List.filterMap_append

@[simp] theorem documents_found (base : Path) (patterns excludes : List String)
    (answer : Except Fault (List Path)) (log : List Reply) :
    documents (.found base patterns excludes answer :: log) = documents log := rfl

@[simp] theorem documents_failed (path : Path) (cause : Fault) (log : List Reply) :
    documents (.loaded path (.error cause) :: log) = documents log := rfl

@[simp] theorem documents_loaded (path : Path) (document : Document) (log : List Reply) :
    documents (.loaded path (.ok document) :: log) = document :: documents log := rfl

def documentsOf (files : List IncludedFile) : List Document := files.map (·.file.document)

namespace Walk

variable {walk after : Walk} {included : IncludedFile}

/-! ## Rounds and pulls -/

theorem Again.logged (h : Again walker.logged walk state after later) :
    Again walker walk state.1 after later.1 ∧
      ∃ quiet, documents quiet = [] ∧ later.2 = state.2 ++ quiet := by
  cases h with
  | visited old => exact ⟨.visited old, [], rfl, (List.append_nil _).symm⟩
  | notLoaded new load =>
    obtain ⟨load, log⟩ := Walker.logged_load load
    exact ⟨.notLoaded new load, [_], rfl, log⟩
  | searched find =>
    obtain ⟨find, log⟩ := Walker.logged_find find
    exact ⟨.searched find, [_], rfl, log⟩
  | notSearched find =>
    obtain ⟨find, log⟩ := Walker.logged_find find
    exact ⟨.notSearched find, [_], rfl, log⟩
  | done => exact ⟨.done, [], rfl, (List.append_nil _).symm⟩

theorem Found.logged (h : Found walker.logged walk state included after later) :
    Found walker walk state.1 included after later.1 ∧
      ∃ path, later.2 = state.2 ++ [.loaded path (.ok included.file.document)] := by
  cases h with
  | loaded new load =>
    obtain ⟨load, log⟩ := Walker.logged_load load
    exact ⟨.loaded new load, _, log⟩

/-- A pull that is logged is the same pull. Of the questions that it adds, the last one is the load
of the file that it gives, and no other is answered with a document. -/
theorem next?_logged (walk : Walk) (state : σ × List Reply) :
    match next? walker.logged walk state with
    | (none, later) => next? walker walk state.1 = (none, later.1) ∧
      ∃ quiet, documents quiet = [] ∧ later.2 = state.2 ++ quiet
    | (some (included, after), later) =>
      next? walker walk state.1 = (some (included, after), later.1) ∧
        ∃ quiet path, documents quiet = [] ∧
          later.2 = state.2 ++ (quiet ++ [.loaded path (.ok included.file.document)]) := by
  fun_induction next? walker.logged walk state with
  | case1 walk state h =>
    obtain ⟨recursive, visited, stack⟩ := walk
    obtain rfl : stack = [] := stack_of_round h
    exact ⟨next?_of_ended rfl, [], rfl, (List.append_nil _).symm⟩
  | case2 walk state after later h ih =>
    obtain ⟨again, more, silent, log⟩ := (again_of_round h).logged
    rw [next?_of_again (round_of_again again)]
    generalize next? walker.logged after later = pulled at ih ⊢
    obtain ⟨_ | ⟨included, last⟩, final⟩ := pulled
    · obtain ⟨same, quiet, silent', log'⟩ := ih
      exact ⟨same, more ++ quiet, by simp [silent, silent'], by rw [log', log, List.append_assoc]⟩
    · obtain ⟨same, quiet, path, silent', log'⟩ := ih
      exact ⟨same, more ++ quiet, path, by simp [silent, silent'], by simp [log', log]⟩
  | case3 walk state included after later h =>
    obtain ⟨found, path, log⟩ := (found_of_round h).logged
    exact ⟨next?_of_found (round_of_found found), [], path, rfl, log⟩

/-- What is gathered, and the state behind it, do not depend on whether a log is kept. -/
theorem gather_logged {α : Type} (items : IncludedFile → List α) (fuel : Nat) (count : Option Nat)
    (walk : Walk) (state : σ × List Reply) :
    (gather walker.logged items fuel count walk state).1 =
        (gather walker items fuel count walk state.1).1 ∧
      (gather walker.logged items fuel count walk state).2.1 =
        (gather walker items fuel count walk state.1).2 := by
  induction fuel generalizing count walk state with
  | zero => simp only [gather_zero, and_self]
  | succ fuel ih =>
    by_cases more : count = some 0
    · subst more
      exact ⟨rfl, rfl⟩
    · have pull := @next?_logged σ walker walk state
      rw [gather_more items fuel more, gather_more items fuel more]
      generalize next? walker.logged walk state = pulled at pull ⊢
      obtain ⟨_ | ⟨included, after⟩, later⟩ := pulled
      · rw [pull.1]
        exact ⟨rfl, rfl⟩
      · rw [pull.1]
        dsimp only
        obtain ⟨found, final⟩ := ih (count.map (· - (wantedOf count (items included)).length)) after
          later
        exact ⟨by rw [found], final⟩

end Walk

end BuildTargets
