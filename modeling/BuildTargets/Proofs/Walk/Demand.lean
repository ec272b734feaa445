import BuildTargets.Proofs.Walk.Log
import BuildTargets.Proofs.Walk.Reach

/-!
# Questions on demand

A walk that is asked for some of its items asks the source for no more than they need: it stops at
the load of the file that the last of them comes from, so that its log is the beginning of the log
of the whole walk. Files that give no items are passed over on the way. The targets of the root come
first and need no question at all.
-/

namespace BuildTargets

variable {σ α : Type}

/-- The questions of a walk with `files` and `log` that its first `count` items take: `calls` are
those up to the load of the file that the last of these items comes from. -/
inductive CallsFor (items : IncludedFile → List α) (count : Nat) (files : List IncludedFile)
    (log calls : List Reply) : Prop where
  | loaded {earlier later : List IncludedFile} {file : IncludedFile} {past rest : List Reply}
      {path : Path}
      (files_eq : files = earlier ++ file :: later)
      (log_eq : log = past ++ .loaded path (.ok file.file.document) :: rest)
      (calls_eq : calls = past ++ [.loaded path (.ok file.file.document)])
      (given : documents past = documentsOf earlier)
      (before : (earlier.flatMap items).length < count)
      (within : count ≤ (earlier.flatMap items).length + (items file).length)

section

variable {items : IncludedFile → List α} {count : Nat} {files : List IncludedFile}
  {log calls quiet : List Reply}

/-- The first file has enough items. -/
theorem CallsFor.first (file : IncludedFile) (path : Path) (silent : documents quiet = [])
    (pos : 0 < count) (enough : count ≤ (items file).length) :
    CallsFor items count (file :: files)
      (quiet ++ [.loaded path (.ok file.file.document)] ++ log)
      (quiet ++ [.loaded path (.ok file.file.document)]) := by
  have files_eq : file :: files = [] ++ file :: files := rfl
  exact .loaded files_eq (by rw [List.append_assoc]; rfl) rfl silent pos (by simpa using enough)

theorem CallsFor.cons (file : IncludedFile) (path : Path)
    (h : CallsFor items count files log calls) (silent : documents quiet = []) :
    CallsFor items ((items file).length + count) (file :: files)
      (quiet ++ [.loaded path (.ok file.file.document)] ++ log)
      (quiet ++ [.loaded path (.ok file.file.document)] ++ calls) := by
  obtain @⟨earlier, later, last, _, _, _, files_eq, log_eq, calls_eq, given, before, within⟩ := h
  have files_eq' : file :: files = (file :: earlier) ++ last :: later := by rw [files_eq]; rfl
  refine .loaded files_eq' (by rw [log_eq, ← List.append_assoc])
    (by rw [calls_eq, ← List.append_assoc]) ?_ ?_ ?_
  · simp [silent, given, documentsOf]
  · simpa using before
  · simp only [List.flatMap_cons, List.length_append]
    omega

end

namespace Walk

variable {walker : Walker σ}

theorem gather_some_zero (items : IncludedFile → List α) (fuel : Nat) (walk : Walk) (state : σ) :
    gather walker items fuel (some 0) walk state = ([], state) := by
  cases fuel <;> rfl

/-- So many items, with as many of them still wanted as the file at hand does not give. -/
theorem sub_length_wantedOf (count : Nat) (items : List α) :
    count - (wantedOf (some count) items).length = count - items.length := by
  rw [wantedOf, List.length_take]
  omega

theorem gather_some_pos (items : IncludedFile → List α) (fuel : Nat) {count : Nat}
    (pos : 0 < count) (walk : Walk) (state : σ) :
    gather walker items (fuel + 1) (some count) walk state =
      match next? walker walk state with
      | (none, state) => ([], state)
      | (some (included, walk), state) =>
        let rest := gather walker items fuel (some (count - (items included).length)) walk state
        ((items included).take count ++ rest.1, rest.2) := by
  have more : some count ≠ some 0 := fun none => Nat.ne_of_gt pos (Option.some.inj none)
  rw [gather_more items fuel more]
  simp only [Option.map_some, sub_length_wantedOf]
  rfl

theorem gather_take (items : IncludedFile → List α) (fuel count : Nat) (walk : Walk) (state : σ) :
    (gather walker items fuel (some count) walk state).1 =
      (gather walker items fuel none walk state).1.take count := by
  induction fuel generalizing count walk state with
  | zero => simp only [gather_zero, List.take_nil]
  | succ fuel ih =>
    rcases Nat.eq_zero_or_pos count with rfl | pos
    · rfl
    · rw [gather_some_pos items fuel pos, gather_succ]
      rcases next? walker walk state with ⟨_ | ⟨included, after⟩, later⟩
      · exact List.take_nil.symm
      · dsimp only
        rw [ih, List.take_append]

theorem gather_log_grows (items : IncludedFile → List α) (fuel : Nat) (walk : Walk)
    (state : σ × List Reply) :
    ∃ more, (gather walker.logged items fuel none walk state).2.2 = state.2 ++ more := by
  have grows : Invariant walker.logged fun _ later => ∃ more, later.2 = state.2 ++ more := {
    again := by
      rintro walk after before later h ⟨more, log⟩
      obtain ⟨-, quiet, -, log'⟩ := h.logged
      exact ⟨more ++ quiet, by rw [log', log, List.append_assoc]⟩
    found := by
      rintro walk after before later included h ⟨more, log⟩
      obtain ⟨-, path, log'⟩ := h.logged
      exact ⟨_, by rw [log', log, List.append_assoc]⟩ }
  obtain ⟨-, more⟩ :=
    @Invariant.gather _ _ _ _ grows items fuel walk state ⟨[], (List.append_nil state.2).symm⟩
  exact more

/-- Some of the items, but not none, take the questions up to the load that the last one of them
comes from. -/
theorem gather_calls (items : IncludedFile → List α) (fuel count : Nat) (walk : Walk)
    (state : σ × List Reply) (pos : 0 < count)
    (le : count ≤ (gather walker.logged items fuel none walk state).1.length) :
    ∃ log calls, (gather walker.logged items fuel none walk state).2.2 = state.2 ++ log ∧
      (gather walker.logged items fuel (some count) walk state).2.2 = state.2 ++ calls ∧
      CallsFor items count
        (gather walker.logged (fun included => [included]) fuel none walk state).1 log calls := by
  induction fuel generalizing count walk state with
  | zero => exact absurd le (Nat.not_le_of_gt pos)
  | succ fuel ih =>
    have pull := @next?_logged σ walker walk state
    rw [gather_succ] at le
    rw [gather_some_pos items fuel pos, gather_succ, gather_succ]
    generalize next? walker.logged walk state = pulled at pull le ⊢
    obtain ⟨_ | ⟨included, after⟩, later⟩ := pulled
    · exact absurd le (Nat.not_le_of_gt pos)
    · obtain ⟨-, quiet, path, silent, log⟩ := pull
      simp only [List.length_append] at le ⊢
      -- The last item wanted comes from a later file, or from the file at hand.
      rcases Nat.lt_or_ge (items included).length count with more | enough
      · obtain ⟨extra, rfl⟩ := Nat.exists_eq_add_of_le (Nat.le_of_lt more)
        rw [Nat.add_sub_cancel_left]
        obtain ⟨rest, calls, full, part, callsFor⟩ := ih extra after later (by omega) (by omega)
        exact ⟨_, _, by rw [full, log, List.append_assoc], by rw [part, log, List.append_assoc],
          callsFor.cons included path silent⟩
      · obtain ⟨rest, full⟩ := @gather_log_grows _ _ walker items fuel after later
        rw [Nat.sub_eq_zero_of_le enough, gather_some_zero, full, log]
        exact ⟨_, _, List.append_assoc .., rfl, .first included path silent pos enough⟩

/-- The questions that some of the items take, where the log is kept from the start of the walk. -/
theorem callsFor_gather (items : IncludedFile → List α) (fuel : Nat) {count : Nat} (walk : Walk)
    (state : σ) (pos : 0 < count)
    (le : count ≤ (gather walker items fuel none walk state).1.length) :
    CallsFor items count (gather walker (fun included => [included]) fuel none walk state).1
      (gather walker.logged items fuel none walk (state, [])).2.2
      (gather walker.logged items fuel (some count) walk (state, [])).2.2 := by
  have plain : ∀ {β : Type} (items : IncludedFile → List β),
      (gather walker.logged items fuel none walk (state, [])).1 =
        (gather walker items fuel none walk state).1 :=
    fun items => (gather_logged items fuel none walk (state, [])).1
  rw [← plain] at le ⊢
  obtain ⟨log, calls, full, part, callsFor⟩ := gather_calls items fuel count walk (state, []) pos le
  rw [full, part]
  exact callsFor

end Walk

/-! ## Questions about a root file -/

namespace Walker

variable (walker : Walker σ) (root : TargetFile) (wanted : Occurrence → Bool)

def directWanted : List Occurrence := (root.targets.map Occurrence.direct).filter wanted

def includedWanted (included : IncludedFile) : List IncludedTarget :=
  (included.targets root.document).filter fun target => wanted (.included target)

theorem occurrences_some (count : Nat) (state : σ) :
    walker.occurrences root wanted (some count) state =
      let included := walker.targetsThrough root root.edges
        (fun target => wanted (.included target))
        (some (count - (directWanted root wanted).length)) state
      ((directWanted root wanted).take count ++ included.1.map .included, included.2) := by
  rw [← Walk.sub_length_wantedOf]
  rfl

theorem occurrences_none (state : σ) :
    walker.occurrences root wanted none state =
      let included := walker.targetsThrough root root.edges
        (fun target => wanted (.included target)) none state
      (directWanted root wanted ++ included.1.map .included, included.2) := rfl

theorem occurrences_take (count : Nat) (state : σ) :
    (walker.occurrences root wanted (some count) state).1 =
      (walker.occurrences root wanted none state).1.take count := by
  simp only [occurrences_some, occurrences_none, targetsThrough, Walk.gather_take, List.take_append,
    List.map_take]

/-- No question is asked where the targets of the root are enough. -/
theorem occurrences_direct {count : Nat} (enough : count ≤ (directWanted root wanted).length)
    (state : σ) :
    walker.occurrences root wanted (some count) state =
      ((directWanted root wanted).take count, state) := by
  rw [occurrences_some, Nat.sub_eq_zero_of_le enough, targetsThrough, Walk.gather_some_zero]
  simp only [List.map_nil, List.append_nil]

/-- Where they are not enough, the questions are those up to the load of the file that the last
occurrence is declared in. -/
theorem occurrences_calls {count : Nat} (state : σ)
    (more : (directWanted root wanted).length < count)
    (le : count ≤ (walker.occurrences root wanted none state).1.length) :
    CallsFor (includedWanted root wanted) (count - (directWanted root wanted).length)
      (walker.includedFiles root true [] none state).1
      (walker.logged.occurrences root wanted none (state, [])).2.2
      (walker.logged.occurrences root wanted (some count) (state, [])).2.2 := by
  rw [occurrences_none, List.length_append, List.length_map] at le
  rw [occurrences_none, occurrences_some]
  exact Walk.callsFor_gather (includedWanted root wanted) walker.limit
    (Walk.start root root.edges true []) state (Nat.sub_pos_of_lt more)
    (Nat.sub_le_of_le_add (by rwa [Nat.add_comm] at le))

theorem targetNamed?_direct {name : String} {target : Target}
    (named : root.targetNamed? name = some target) (state : σ) :
    walker.targetNamed? root name state = (some (.direct target), state) := by
  have first : (directWanted root fun occurrence => occurrence.name == name).head? =
      some (.direct target) := by
    rw [directWanted, List.head?_filter, List.find?_map]
    exact congrArg (Option.map Occurrence.direct) named
  have enough : 1 ≤ (directWanted root fun occurrence => occurrence.name == name).length := by
    rw [List.head?_eq_some_iff] at first
    obtain ⟨rest, eq⟩ := first
    rw [eq]
    exact Nat.le_add_left 1 _
  rw [targetNamed?, occurrences_direct walker root _ enough]
  dsimp only
  rw [List.head?_take, if_neg Nat.one_ne_zero, first]

end Walker

/-- **Nothing is asked ahead of demand.** The first `count` files that a root includes, however they
are asked for, are those that come first of all, and they take the questions up to the load of the
last one of them. Likewise its first `count` targets: if the root declares as many itself they take
no question and leave the state alone, and otherwise they take the questions up to the load of the
file that declares the last one. So a name that the root declares is looked up without a
question. -/
theorem nothing_asked_ahead_of_demand (walker : Walker σ) (root : TargetFile) (state : σ) :
    (∀ recursive visited count,
      let files := (walker.includedFiles root recursive visited none state).1
      let log := fun count =>
        (walker.logged.includedFiles root recursive visited count (state, [])).2.2
      0 < count → count ≤ files.length →
        (walker.includedFiles root recursive visited (some count) state).1 = files.take count ∧
          CallsFor (fun included => [included]) count files (log none) (log (some count))) ∧
    (∀ count,
      let all := (walker.allTargets root state).1
      let first := walker.occurrences root (fun _ => true) (some count)
      let log := fun count =>
        (walker.logged.occurrences root (fun _ => true) count (state, [])).2.2
      (first state).1 = all.take count ∧
        (count ≤ root.targets.length → (first state).2 = state ∧ log (some count) = []) ∧
        (root.targets.length < count → count ≤ all.length →
          CallsFor (fun included => included.targets root.document) (count - root.targets.length)
            (walker.includedFiles root true [] none state).1 (log none) (log (some count)))) ∧
    (∀ name target, root.targetNamed? name = some target →
      walker.targetNamed? root name state = (some (.direct target), state) ∧
        (walker.logged.targetNamed? root name (state, [])).2.2 = []) := by
  have direct : (Walker.directWanted root fun _ => true).length = root.targets.length := by
    rw [Walker.directWanted, List.filter_eq_self.2 fun _ _ => rfl, List.length_map]
  have included : Walker.includedWanted root (fun _ => true) =
      fun included => included.targets root.document :=
    funext fun included => List.filter_eq_self.2 fun _ _ => rfl
  refine ⟨?files, ?targets, ?named⟩
  case files =>
    intro recursive visited count files log pos le
    exact ⟨Walk.gather_take .., Walk.callsFor_gather _ _ _ state pos le⟩
  case targets =>
    intro count all first log
    refine ⟨walker.occurrences_take .., fun enough => ?_, fun more le => ?_⟩
    · rw [← direct] at enough
      simp only [first, log, walker.occurrences_direct root _ enough,
        walker.logged.occurrences_direct root _ enough, and_self]
    · rw [← direct] at more ⊢
      rw [← included]
      exact walker.occurrences_calls root _ state more le
  case named =>
    intro name target named
    rw [walker.targetNamed?_direct root named, walker.logged.targetNamed?_direct root named]
    exact ⟨rfl, rfl⟩

/-- One file of the ring is asked for. -/
theorem ring_asked_for_one_file :
    let walker : Walker Unit := ⟨ring.source, [], 2⟩
    let files := (walker.includedFiles ringRoot true [] none ()).1
    let log := fun count => (walker.logged.includedFiles ringRoot true [] count ((), [])).2.2
    0 < 1 ∧ 1 ≤ files.length ∧
      (walker.includedFiles ringRoot true [] (some 1) ()).1 = files.take 1 ∧
        CallsFor (fun included => [included]) 1 files (log none) (log (some 1)) := by
  intro walker files log
  have within : (Walk.filesWithin? walker 20 (Walk.start ringRoot ringRoot.edges true []) ()).map
      List.length = some 2 := by
    decide +kernel
  obtain ⟨given, all, length⟩ := Option.map_eq_some_iff.1 within
  obtain ⟨final, ends⟩ := Walk.ends_of_filesWithin? all
  have pulled : files = given := by
    rw [← List.take_of_length_le (Nat.le_of_eq length)]
    exact ends.pulled_eq 2
  have enough : 1 ≤ files.length := by rw [pulled, length]; exact Nat.le_succ 1
  obtain ⟨ones, -⟩ := nothing_asked_ahead_of_demand walker ringRoot ()
  exact ⟨Nat.one_pos, enough, ones true [] 1 Nat.one_pos enough⟩

end BuildTargets
