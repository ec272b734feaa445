import BuildTargets.Walk

/-!
# Runs of a walk

`Found` says what a round with a file does, beside `Again` for one without. `Ends walker walk
state files final`: the walk comes to its end in finitely many rounds, with `files` on the way and
`final` as the state behind it. A walk that ends can be gathered: what `gather` takes from it are
the items of its files.
-/

namespace BuildTargets.Walk

variable {σ : Type} {walker : Walker σ}

/-- What a round with a file does. -/
inductive Found (walker : Walker σ) : Walk → σ → IncludedFile → Walk → σ → Prop where
  | loaded {recursive visited file depth edges path pending offset below state document after}
      (new : hasVisited ⟨recursive, visited, ⟨file, depth, edges, path :: pending, offset⟩ :: below⟩
        path = false)
      (load : walker.source.load path state = (.ok document, after)) :
      Found walker ⟨recursive, visited, ⟨file, depth, edges, path :: pending, offset⟩ :: below⟩
        state ⟨⟨document, file.grammar⟩, ⟨file.document, offset⟩, depth + 1⟩
        ⟨recursive, path.normalize :: visited,
          if recursive then
            ⟨⟨document, file.grammar⟩, depth + 1, TargetFile.edges ⟨document, file.grammar⟩, [],
              0⟩ :: ⟨file, depth, edges, pending, offset⟩ :: below
          else ⟨file, depth, edges, pending, offset⟩ :: below⟩ after

theorem found_of_round {walk after : Walk} {state later : σ} {included : IncludedFile}
    (h : round walker walk state = .found included after later) :
    Found walker walk state included after later := by
  unfold round at h
  split at h
  · cases h
  · dsimp only at h
    split at h
    · cases h
    · next new =>
      split at h
      · cases h
      · next load => cases h; exact .loaded (by simpa using new) load
  · split at h <;> cases h
  · cases h

theorem round_of_again {walk after : Walk} {state later : σ}
    (h : Again walker walk state after later) : round walker walk state = .again after later := by
  cases h with
  | visited old => rw [round, if_pos old]
  | notLoaded new load =>
    rw [round, new, if_neg Bool.false_ne_true]
    dsimp only
    rw [load]
  | searched find | notSearched find => rw [round, find]
  | done => rfl

theorem round_of_found {walk after : Walk} {state later : σ} {included : IncludedFile}
    (h : Found walker walk state included after later) :
    round walker walk state = .found included after later := by
  cases h with
  | loaded new load =>
    rw [round, new, if_neg Bool.false_ne_true]
    dsimp only
    rw [load]

theorem stack_of_round {walk : Walk} {state : σ} (h : round walker walk state = .ended) :
    walk.stack = [] := by
  unfold round at h
  split at h
  · rfl
  · dsimp only at h
    split at h
    · cases h
    · split at h <;> cases h
  · split at h <;> cases h
  · cases h

/-! ## Pulling -/

theorem next?_of_ended {walk : Walk} {state : σ} (h : round walker walk state = .ended) :
    next? walker walk state = (none, state) := by
  rw [next?.eq_def]
  split <;> simp_all

theorem next?_of_again {walk after : Walk} {state later : σ}
    (h : round walker walk state = .again after later) :
    next? walker walk state = next? walker after later := by
  rw [next?.eq_def]
  split <;> simp_all

theorem next?_of_found {walk after : Walk} {state later : σ} {included : IncludedFile}
    (h : round walker walk state = .found included after later) :
    next? walker walk state = (some (included, after), later) := by
  rw [next?.eq_def]
  split <;> simp_all

theorem gather_zero {α : Type} (items : IncludedFile → List α) (count : Option Nat) (walk : Walk)
    (state : σ) : gather walker items 0 count walk state = ([], state) := by
  rcases count with _ | _ | count <;> rfl

/-- As many of the items of a file as are still wanted. -/
def wantedOf {α : Type} (count : Option Nat) (items : List α) : List α :=
  match count with
  | some count => items.take count
  | none => items

theorem gather_more {α : Type} (items : IncludedFile → List α) (fuel : Nat) {count : Option Nat}
    (more : count ≠ some 0) (walk : Walk) (state : σ) :
    gather walker items (fuel + 1) count walk state =
      match next? walker walk state with
      | (none, state) => ([], state)
      | (some (included, walk), state) =>
        let found := wantedOf count (items included)
        let rest := gather walker items fuel (count.map (· - found.length)) walk state
        (found ++ rest.1, rest.2) := by
  rw [gather]
  · rfl
  · exact more

theorem gather_succ {α : Type} (items : IncludedFile → List α) (fuel : Nat) (walk : Walk)
    (state : σ) :
    gather walker items (fuel + 1) none walk state =
      match next? walker walk state with
      | (none, state) => ([], state)
      | (some (included, walk), state) =>
        let rest := gather walker items fuel none walk state
        (items included ++ rest.1, rest.2) :=
  gather_more items fuel (Option.some_ne_none 0).symm walk state

/-! ## Invariants -/

/-- What every round of a walk keeps. -/
structure Invariant (walker : Walker σ) (P : Walk → σ → Prop) : Prop where
  again : ∀ {walk after : Walk} {state later : σ}, Again walker walk state after later →
    P walk state → P after later
  found : ∀ {walk after : Walk} {state later : σ} {included : IncludedFile},
    Found walker walk state included after later → P walk state → P after later

theorem Invariant.next? {P : Walk → σ → Prop} (keeps : Invariant walker P) {walk : Walk} {state : σ}
    (h : P walk state) :
    match Walk.next? walker walk state with
    | (none, final) => ∃ after, P after final
    | (some (_, after), later) => P after later := by
  fun_induction Walk.next? walker walk state with
  | case1 walk state => exact ⟨walk, h⟩
  | case2 walk state after later step ih => exact ih (keeps.again (again_of_round step) h)
  | case3 walk state included after later step => exact keeps.found (found_of_round step) h

/-- What every round keeps holds when items have been gathered. -/
theorem Invariant.gathered {α : Type} {P : Walk → σ → Prop} (keeps : Invariant walker P)
    (items : IncludedFile → List α) (fuel : Nat) (count : Option Nat) {walk : Walk} {state : σ}
    (h : P walk state) : ∃ after, P after (Walk.gather walker items fuel count walk state).2 := by
  induction fuel generalizing count walk state with
  | zero =>
    rw [gather_zero]
    exact ⟨walk, h⟩
  | succ fuel ih =>
    by_cases more : count = some 0
    · subst more
      exact ⟨walk, h⟩
    · have pulled := keeps.next? h
      rw [gather_more items fuel more]
      generalize Walk.next? walker walk state = pull at pulled ⊢
      obtain ⟨_ | ⟨included, after⟩, later⟩ := pull
      · exact pulled
      · exact ih _ pulled

theorem Invariant.gather {α : Type} {P : Walk → σ → Prop} (keeps : Invariant walker P)
    (items : IncludedFile → List α) (fuel : Nat) {walk : Walk} {state : σ} (h : P walk state) :
    ∃ after, P after (Walk.gather walker items fuel none walk state).2 :=
  keeps.gathered items fuel none h

/-- A pulled file comes from a round before which what every round keeps holds. -/
theorem Invariant.found_of_next? {P : Walk → σ → Prop} (keeps : Invariant walker P)
    {walk after : Walk} {state later : σ} {included : IncludedFile} (h : P walk state)
    (pulled : Walk.next? walker walk state = (some (included, after), later)) :
    ∃ before earlier, P before earlier ∧ Found walker before earlier included after later := by
  fun_induction Walk.next? walker walk state with
  | case1 => cases pulled
  | case2 _ _ _ _ step ih => exact ih (keeps.again (again_of_round step) h) pulled
  | case3 walk state _ _ _ step =>
    cases pulled
    exact ⟨walk, state, h, found_of_round step⟩

/-- What is gathered comes from files that satisfy what every round with a file gives. -/
theorem Invariant.mem_gather {α : Type} {P : Walk → σ → Prop} (keeps : Invariant walker P)
    {Q : IncludedFile → Prop}
    (gives : ∀ {walk after : Walk} {state later : σ} {included : IncludedFile},
      Found walker walk state included after later → P walk state → Q included)
    {items : IncludedFile → List α} {fuel : Nat} {walk : Walk} {state : σ} (h : P walk state)
    {item : α} (mem : item ∈ (Walk.gather walker items fuel none walk state).1) :
    ∃ included, Q included ∧ item ∈ items included := by
  induction fuel generalizing walk state with
  | zero => cases mem
  | succ fuel ih =>
    rw [gather_succ] at mem
    split at mem
    · cases mem
    · next included after later pulled =>
      obtain ⟨before, earlier, held, found⟩ := keeps.found_of_next? h pulled
      rcases List.mem_append.1 mem with mem | mem
      · exact ⟨included, gives found held, mem⟩
      · exact ih (keeps.found found held) mem

/-! ## Walks that end -/

/-- The walk ends after finitely many rounds. -/
inductive Ends (walker : Walker σ) : Walk → σ → List IncludedFile → σ → Prop where
  | ended {walk : Walk} {state : σ} (h : round walker walk state = .ended) :
      Ends walker walk state [] state
  | again {walk after : Walk} {state later final : σ} {files : List IncludedFile}
      (h : round walker walk state = .again after later)
      (rest : Ends walker after later files final) : Ends walker walk state files final
  | found {walk after : Walk} {state later final : σ} {included : IncludedFile}
      {files : List IncludedFile} (h : round walker walk state = .found included after later)
      (rest : Ends walker after later files final) :
      Ends walker walk state (included :: files) final

theorem gather_of_again {α : Type} {items : IncludedFile → List α} {walk after : Walk}
    {state later : σ} (h : round walker walk state = .again after later) (fuel : Nat) :
    (gather walker items fuel none walk state).1 =
      (gather walker items fuel none after later).1 := by
  cases fuel with
  | zero => rfl
  | succ fuel => rw [gather_succ, gather_succ, next?_of_again h]

theorem Ends.gather_eq {α : Type} (items : IncludedFile → List α) {walk : Walk} {state final : σ}
    {files : List IncludedFile} (h : Ends walker walk state files final) (fuel : Nat) :
    (gather walker items fuel none walk state).1 = (files.take fuel).flatMap items := by
  induction h generalizing fuel with
  | ended h =>
    cases fuel with
    | zero => rfl
    | succ fuel => rw [gather_succ, next?_of_ended h]; rfl
  | again h _ ih => rw [gather_of_again h, ih]
  | found h _ ih =>
    cases fuel with
    | zero => rfl
    | succ fuel => simp [gather_succ, next?_of_found h, ih]

theorem Ends.pulled_eq {walk : Walk} {state final : σ} {files : List IncludedFile}
    (h : Ends walker walk state files final) (demand : Nat) :
    (gather walker (fun included => [included]) demand none walk state).1 = files.take demand := by
  rw [h.gather_eq, List.flatMap_singleton']

/-- The files of a walk that ends within so many rounds. -/
def filesWithin? (walker : Walker σ) : (rounds : Nat) → Walk → σ → Option (List IncludedFile)
  | 0, _, _ => none
  | rounds + 1, walk, state =>
    match round walker walk state with
    | .ended => some []
    | .again walk state => filesWithin? walker rounds walk state
    | .found included walk state => (filesWithin? walker rounds walk state).map (included :: ·)

theorem ends_of_filesWithin? {rounds : Nat} {walk : Walk} {state : σ} {files : List IncludedFile}
    (h : filesWithin? walker rounds walk state = some files) :
    ∃ final, Ends walker walk state files final := by
  induction rounds generalizing walk state files with
  | zero => cases h
  | succ rounds ih =>
    rw [filesWithin?] at h
    split at h
    · next ended =>
      cases h
      exact ⟨state, .ended ended⟩
    · next again =>
      obtain ⟨final, rest⟩ := ih h
      exact ⟨final, .again again rest⟩
    · next found =>
      obtain ⟨later, within, rfl⟩ := Option.map_eq_some_iff.1 h
      obtain ⟨final, rest⟩ := ih within
      exact ⟨final, .found found rest⟩

end BuildTargets.Walk
